import Yeah.Events.Route
import Yeah.Runs
import Mathlib.Data.List.Nodup

namespace Yeah.Events

open Runs

/-- A published event, with its place in the channel. -/
structure Message where
  serial : Nat
  event : Event
  deriving DecidableEq

/-- A connection with the teams of its user as they were last read. -/
structure Client where
  id : Nat
  teams : List String

structure Entry where
  teamId : String
  expires : Nat

abbrev Cache := List (String × Entry)

/-- The dispatch of an event waits for `ownerOf`, which has looked into the cache, or goes on with the owner. -/
inductive Phase
  | asked (cached : Option String)
  | known (owner : Option String)

structure Pending where
  message : Message
  kind : Kind
  id : String
  phase : Phase

/-- The ws service, with what was published and what was sent, to a client with its teams at that moment. -/
structure State where
  clients : List Client
  ownerCache : Cache
  published : List Message
  pending : List Pending
  sent : List (Client × Message)

namespace State

def empty : State := ⟨[], [], [], [], []⟩

variable (s : State)

def send (route : Route) (owner : Option String) (m : Message) : State :=
  { s with sent := s.sent ++ (s.clients.filter fun c => canReceive route owner c.teams).map fun c => (c, m) }

def answer (m : Message) (owner : Option String) : State :=
  { s with pending := s.pending.map fun p => if p.message = m then { p with phase := .known owner } else p }

def forget (m : Message) : State := { s with pending := s.pending.filter fun p => p.message ≠ m }

end State

inductive Action
  | publish (m : Message) (now : Nat)
  /-- The promise of `ownerOf` resolves. -/
  | resolve (m : Message) (now : Nat)
  /-- The dispatch goes on after `ownerOf`. -/
  | deliver (m : Message)
  /-- The dispatch throws. -/
  | fail (m : Message)
  | connect (id : Nat) (teams : List String)
  | disconnect (id : Nat)
  | refresh (id : Nat) (teams : List String)

def ownerTtl : Nat := 5 * 60000

def ownerCacheMax : Nat := 5000

namespace Cache

variable (cache : Cache)

def hit (key : String) (now : Nat) : Option String :=
  ((cache.lookup key).filter fun entry => entry.expires > now).map Entry.teamId

def store (key : String) (entry : Entry) : Cache := (key, entry) :: List.filter (fun e => e.1 ≠ key) cache

/-- What `ownerOf` keeps of a look-up. -/
def remember (key : String) (owner : Option String) (now : Nat) : Cache :=
  match given owner with
  | some teamId => store (if cache.length ≥ ownerCacheMax then [] else cache) key ⟨teamId, now + ownerTtl⟩
  | none => cache

end Cache

section Service

variable (tables : Tables)

/-- `dispatch`, up to the look-up. -/
def dispatch (s : State) (m : Message) (now : Nat) : State :=
  match routeEvent m.event with
  | none => s
  | some route =>
      if s.clients.isEmpty then s
      else match route with
        | .resource kind id => { s with pending := s.pending ++ [⟨m, kind, id, .asked (s.ownerCache.hit (cacheKey kind id) now)⟩] }
        | _ => s.send route none m

def step (s : State) : Action → State
  | .publish m now => if m ∈ s.published then s else dispatch { s with published := s.published ++ [m] } m now
  | .resolve m now =>
      match s.pending.find? fun p => p.message = m with
      | some ⟨_, _, _, .asked (some teamId)⟩ => s.answer m (some teamId)
      | some ⟨_, kind, id, .asked none⟩ =>
          let owner := lookupOwner tables kind id
          { s.answer m owner with ownerCache := s.ownerCache.remember (cacheKey kind id) owner now }
      | _ => s
  | .deliver m =>
      match s.pending.find? fun p => p.message = m with
      | some ⟨_, kind, id, .known owner⟩ => (s.send (.resource kind id) owner m).forget m
      | _ => s
  | .fail m => s.forget m
  | .connect id teams => if s.clients.any fun c => c.id = id then s else { s with clients := s.clients ++ [⟨id, teams⟩] }
  | .disconnect id => { s with clients := s.clients.filter fun c => c.id ≠ id }
  | .refresh id teams => { s with clients := s.clients.map fun c => if c.id = id then { c with teams := teams } else c }

/-- The phase tells the truth about the owner. -/
def Phase.Right (owner : Option String) : Phase → Prop
  | .asked none => True
  | .asked (some teamId) => owner = some teamId
  | .known answer => owner = answer

/-- The entries of the cache name the owners. -/
def Cache.Right (cache : Cache) : Prop :=
  ∀ e ∈ cache, ∀ kind id, e.1 = cacheKey kind id → lookupOwner tables kind id = some e.2.teamId

structure Inv (s : State) : Prop where
  cache : s.ownerCache.Right tables
  routed : ∀ p ∈ s.pending, routeEvent p.message.event = some (.resource p.kind p.id)
  right : ∀ p ∈ s.pending, p.phase.Right (lookupOwner tables p.kind p.id)
  nodup : (s.pending.map Pending.message).Nodup
  published : ∀ p ∈ s.pending, p.message ∈ s.published
  sent : ∀ d ∈ s.sent, Entitled tables d.1.teams d.2.event

variable {tables} {s : State} {m : Message}

theorem Cache.Right.hit {cache : Cache} (h : cache.Right tables) (kind : Kind) (id : String) (now : Nat) :
    (Phase.asked (cache.hit (cacheKey kind id) now)).Right (lookupOwner tables kind id) := by
  cases hhit : cache.hit (cacheKey kind id) now with
  | none => trivial
  | some teamId =>
      obtain ⟨entry, hentry, rfl⟩ := Option.map_eq_some_iff.1 hhit
      obtain ⟨u, v, hcache, -⟩ := List.lookup_eq_some_iff.1 (Option.filter_eq_some_iff.1 hentry).1
      exact h (cacheKey kind id, entry) (by rw [hcache]; simp) kind id rfl

theorem Cache.Right.remember {cache : Cache} (h : cache.Right tables) (kind : Kind) (id : String)
    (now : Nat) :
    (cache.remember (cacheKey kind id) (lookupOwner tables kind id) now).Right tables := by
  rw [Cache.remember]
  split
  · next teamId hgiven =>
    intro e he kind' id' hkey
    rcases List.mem_cons.1 he with rfl | he
    · obtain ⟨rfl, rfl⟩ := cacheKey_inj hkey
      exact (Option.filter_eq_some_iff.1 hgiven).1
    · have hm := List.mem_of_mem_filter he
      split at hm
      · cases hm
      · exact h e hm kind' id' hkey
  · exact h

theorem mem_of_found {p : Pending} (hf : s.pending.find? (fun q => q.message = m) = some p) :
    p ∈ s.pending ∧ p.message = m := by
  have hm := List.find?_some hf
  exact ⟨List.mem_of_find?_eq_some hf, by simpa using hm⟩

theorem inv_empty : Inv tables State.empty where
  cache e he := by cases he
  routed p hp := by cases hp
  right p hp := by cases hp
  nodup := List.nodup_nil
  published p hp := by cases hp
  sent d hd := by cases hd

theorem Inv.send (h : Inv tables s) {route : Route} {owner : Option String}
    (hr : routeEvent m.event = some route)
    (ho : ∀ kind id, route = .resource kind id → owner = lookupOwner tables kind id) :
    Inv tables (s.send route owner m) where
  cache := h.cache
  routed := h.routed
  right := h.right
  nodup := h.nodup
  published := h.published
  sent d hd := by
    rcases List.mem_append.1 hd with hd | hd
    · exact h.sent d hd
    · obtain ⟨c, hc, rfl⟩ := List.mem_map.1 hd
      exact (canReceive_iff hr ho).1 (List.mem_filter.1 hc).2

theorem messages_answer (m : Message) (owner : Option String) :
    (s.answer m owner).pending.map Pending.message = s.pending.map Pending.message := by
  rw [State.answer, List.map_map]
  refine List.map_congr_left fun q _ => ?_
  rw [Function.comp_apply]
  split <;> rfl

theorem Inv.answer (h : Inv tables s) {p : Pending} (hp : p ∈ s.pending) {cache : Cache}
    (hc : cache.Right tables) :
    Inv tables { s.answer p.message (lookupOwner tables p.kind p.id) with ownerCache := cache } := by
  have hpending (q : Pending) (hq : q ∈ (s.answer p.message (lookupOwner tables p.kind p.id)).pending) :
      ∃ r ∈ s.pending, q = if r.message = p.message then { r with phase := .known (lookupOwner tables r.kind r.id) } else r := by
    obtain ⟨r, hr, rfl⟩ := List.mem_map.1 hq
    refine ⟨r, hr, ?_⟩
    split
    · next hm => rw [List.inj_on_of_nodup_map h.nodup hr hp hm]
    · rfl
  refine ⟨hc, fun q hq => ?_, fun q hq => ?_, ?_, fun q hq => ?_, h.sent⟩
  · obtain ⟨r, hr, rfl⟩ := hpending q hq
    split
    · exact h.routed r hr
    · exact h.routed r hr
  · obtain ⟨r, hr, rfl⟩ := hpending q hq
    split
    · rfl
    · exact h.right r hr
  · exact (messages_answer p.message _).symm ▸ h.nodup
  · obtain ⟨r, hr, rfl⟩ := hpending q hq
    split
    · exact h.published r hr
    · exact h.published r hr

theorem Inv.forget (h : Inv tables s) (m : Message) : Inv tables (s.forget m) where
  cache := h.cache
  routed p hp := h.routed p (List.mem_of_mem_filter hp)
  right p hp := h.right p (List.mem_of_mem_filter hp)
  nodup := h.nodup.sublist (List.filter_sublist.map _)
  published p hp := h.published p (List.mem_of_mem_filter hp)
  sent := h.sent

theorem Inv.dispatch (h : Inv tables s) (hm : m ∉ s.published) (now : Nat) :
    Inv tables (dispatch { s with published := s.published ++ [m] } m now) := by
  have hpublish : Inv tables { s with published := s.published ++ [m] } :=
    ⟨h.cache, h.routed, h.right, h.nodup, fun p hp => List.mem_append_left _ (h.published p hp), h.sent⟩
  rw [Events.dispatch]
  split
  · exact hpublish
  · next route hr =>
    split
    · exact hpublish
    · split
      · next kind id =>
        refine ⟨h.cache, fun p hp => ?_, fun p hp => ?_, ?_, fun p hp => ?_, h.sent⟩
        · rcases List.mem_append.1 hp with hp | hp
          · exact h.routed p hp
          · rw [List.mem_singleton.1 hp, hr]
        · rcases List.mem_append.1 hp with hp | hp
          · exact h.right p hp
          · rw [List.mem_singleton.1 hp]
            exact h.cache.hit kind id now
        · rw [List.map_append, List.nodup_append]
          refine ⟨h.nodup, List.nodup_singleton _, fun a ha b hb hab => ?_⟩
          obtain ⟨p, hp, rfl⟩ := List.mem_map.1 ha
          rw [List.mem_singleton.1 hb] at hab
          exact hm ((show p.message = m from hab) ▸ h.published p hp)
        · rcases List.mem_append.1 hp with hp | hp
          · exact hpublish.published p hp
          · rw [List.mem_singleton.1 hp]
            simp
      · next hroute => exact hpublish.send hr fun kind id he => absurd he (hroute kind id)

theorem inv_step (h : Inv tables s) (a : Action) : Inv tables (step tables s a) := by
  cases a with
  | publish m now =>
      rw [step]
      split
      · exact h
      · next hm => exact h.dispatch hm now
  | resolve m now =>
      rw [step]
      split
      · next kind id teamId hf =>
        obtain ⟨hp, rfl⟩ := mem_of_found hf
        have howner : lookupOwner tables kind id = some teamId := h.right _ hp
        rw [← howner]
        exact h.answer hp h.cache
      · next kind id hf =>
        obtain ⟨hp, rfl⟩ := mem_of_found hf
        exact h.answer hp (h.cache.remember kind id now)
      · exact h
  | deliver m =>
      rw [step]
      split
      · next kind id owner hf =>
        obtain ⟨hp, rfl⟩ := mem_of_found hf
        refine (h.send (h.routed _ hp) fun kind' id' he => ?_).forget _
        cases he
        exact (h.right _ hp).symm
      · exact h
  | fail m => exact h.forget m
  | connect id teams =>
      rw [step]
      split
      · exact h
      · exact ⟨h.cache, h.routed, h.right, h.nodup, h.published, h.sent⟩
  | disconnect id => exact ⟨h.cache, h.routed, h.right, h.nodup, h.published, h.sent⟩
  | refresh id teams => exact ⟨h.cache, h.routed, h.right, h.nodup, h.published, h.sent⟩

theorem inv_run (tables : Tables) (actions : List Action) :
    Inv tables (run (step tables) State.empty actions) := by
  have h : Along (step tables) (fun _ _ => True) State.empty actions := along_true _ actions
  exact along_invariant (I := Inv tables) (fun _ a hi _ => inv_step hi a) inv_empty h

end Service

/-- The teams that an action gives to a client. -/
def Action.gives (client : Nat) : Action → List String
  | .connect id teams | .refresh id teams => if id = client then teams else []
  | _ => []

def Action.message : Action → Option Message
  | .publish m _ | .resolve m _ | .deliver m | .fail m => some m
  | .connect _ _ | .disconnect _ | .refresh _ _ => none

def Phase.isKnown : Phase → Bool
  | .asked _ => false
  | .known _ => true

def State.received (s : State) (client : Nat) : List Message :=
  (s.sent.filter fun d => d.1.id = client).map Prod.snd

/-- The stream as one client may know it: who is connected, the messages of its teams, and what it has received. -/
structure View where
  clients : List Client
  published : List Message
  waiting : List (Message × Bool)
  received : List Message

section View

variable (tables : Tables) (client : Nat) (teams : List String)

def own (m : Message) : Bool := (teamOf tables m.event).all fun team => team ∈ teams

def Action.own (a : Action) : Bool := a.message.all (Events.own tables teams)

def sees (c : Client) (event : Event) : Bool :=
  match routeEvent event with
  | none => false
  | some (.resource kind id) => canReceive (.resource kind id) (lookupOwner tables kind id) c.teams
  | some route => canReceive route none c.teams

def State.view (s : State) : View where
  clients := s.clients
  published := s.published.filter (own tables teams)
  waiting :=
    (s.pending.filter fun p => own tables teams p.message).map fun p => (p.message, p.phase.isKnown)
  received := s.received client

namespace View

variable (v : View)

def receive (m : Message) : View :=
  { v with received := v.received ++ (v.clients.filter fun c => c.id = client && sees tables c m.event).map fun _ => m }

/-- The service without its cache and its look-ups. -/
def step (v : View) : Action → View
  | .publish m _ =>
      if m ∈ v.published then v
      else
        let v := { v with published := v.published ++ [m] }
        match routeEvent m.event with
        | none => v
        | some route =>
            if v.clients.isEmpty then v
            else match route with
              | .resource _ _ => { v with waiting := v.waiting ++ [(m, false)] }
              | _ => v.receive tables client m
  | .resolve m _ => { v with waiting := v.waiting.map fun w => if w.1 = m then (m, true) else w }
  | .deliver m =>
      if (m, true) ∈ v.waiting then { v.receive tables client m with waiting := v.waiting.filter fun w => w.1 ≠ m } else v
  | .fail m => { v with waiting := v.waiting.filter fun w => w.1 ≠ m }
  | .connect id teams => if v.clients.any fun c => c.id = id then v else { v with clients := v.clients ++ [⟨id, teams⟩] }
  | .disconnect id => { v with clients := v.clients.filter fun c => c.id ≠ id }
  | .refresh id teams => { v with clients := v.clients.map fun c => if c.id = id then { c with teams := teams } else c }

end View

variable {tables client teams} {s : State} {m : Message}

theorem received_send (route : Route) (owner : Option String) :
    (s.send route owner m).received client =
      s.received client ++ (s.clients.filter fun c => c.id = client && canReceive route owner c.teams).map fun _ => m := by
  rw [State.received, State.send, List.filter_append, List.map_append, List.filter_map, List.map_map,
    List.filter_filter]
  rfl

theorem sees_eq {route : Route} {owner : Option String} (hr : routeEvent m.event = some route)
    (ho : ∀ kind id, route = .resource kind id → owner = lookupOwner tables kind id) (c : Client) :
    sees tables c m.event = canReceive route owner c.teams := by
  rw [sees, hr]
  cases route with
  | all | team => rfl
  | resource kind id => rw [ho kind id rfl]

theorem view_send {route : Route} {owner : Option String} (hr : routeEvent m.event = some route)
    (ho : ∀ kind id, route = .resource kind id → owner = lookupOwner tables kind id) :
    (s.send route owner m).view tables client teams = (s.view tables client teams).receive tables client m := by
  simp only [State.view, View.receive, received_send, sees_eq hr ho]
  rfl

theorem not_own (hm : own tables teams m = false) :
    ∃ team, teamOf tables m.event = some team ∧ team ∉ teams := by
  cases ht : teamOf tables m.event with
  | none => simp [own, ht] at hm
  | some team => exact ⟨team, rfl, by simpa [own, ht] using hm⟩

/-- A message of another team does not reach the client. -/
theorem view_send_of_not_own (hm : own tables teams m = false)
    (hc : ∀ c ∈ s.clients, c.id = client → c.teams ⊆ teams)
    {route : Route} {owner : Option String} (hr : routeEvent m.event = some route)
    (ho : ∀ kind id, route = .resource kind id → owner = lookupOwner tables kind id) :
    (s.send route owner m).view tables client teams = s.view tables client teams := by
  have hnone : (s.clients.filter fun c => c.id = client && canReceive route owner c.teams) = [] := by
    rw [List.filter_eq_nil_iff]
    intro c hmem hreceive
    obtain ⟨hid, hcan⟩ := Bool.and_eq_true_iff.1 hreceive
    obtain ⟨team, hteam, hnot⟩ := not_own hm
    have hall : routeEvent m.event ≠ some .all := by
      intro he
      rw [teamOf, he] at hteam
      cases hteam
    obtain ⟨other, hother, ho⟩ := (entitled_iff_teamOf hall).1 ((canReceive_iff hr ho).1 hcan)
    rw [hteam] at ho
    exact hnot (hc c hmem (of_decide_eq_true hid) (Option.some_inj.1 ho ▸ hother))
  simp only [State.view, received_send, hnone, List.map_nil, List.append_nil]
  rfl

theorem view_answer (owner : Option String) (cache : Cache) :
    ({ s.answer m owner with ownerCache := cache } : State).view tables client teams =
      { s.view tables client teams with
        waiting := (s.view tables client teams).waiting.map fun w => if w.1 = m then (m, true) else w } := by
  simp only [State.view, State.answer, State.received, View.mk.injEq, true_and, and_true, List.map_map,
    List.filter_map]
  have hfilter : (fun p : Pending => own tables teams p.message) ∘ (fun p => if p.message = m then { p with phase := .known owner } else p) =
      fun p => own tables teams p.message := by
    funext p
    rw [Function.comp_apply]
    split <;> rfl
  rw [hfilter]
  refine List.map_congr_left fun p _ => ?_
  rw [Function.comp_apply, Function.comp_apply]
  split
  · next hp => rw [← hp]; rfl
  · rfl

theorem view_forget : (s.forget m).view tables client teams =
      { s.view tables client teams with waiting := (s.view tables client teams).waiting.filter fun w => w.1 ≠ m } := by
  simp only [State.view, State.forget, State.received, View.mk.injEq, true_and, and_true, List.filter_map,
    List.filter_filter]
  congr 1
  refine List.filter_congr fun p _ => ?_
  rw [Bool.and_comm]
  rfl

theorem mem_waiting_iff (h : Inv tables s) (hm : own tables teams m) {p : Pending}
    (hf : s.pending.find? (fun q => q.message = m) = some p) (known : Bool) :
    (m, known) ∈ (s.view tables client teams).waiting ↔ p.phase.isKnown = known := by
  obtain ⟨hp, rfl⟩ := mem_of_found hf
  constructor
  · intro hw
    obtain ⟨q, hq, he⟩ := List.mem_map.1 hw
    obtain ⟨hmessage, hknown⟩ := Prod.mk.inj he
    rw [List.inj_on_of_nodup_map h.nodup (List.mem_of_mem_filter hq) hp hmessage] at hknown
    exact hknown
  · rintro rfl
    exact List.mem_map.2 ⟨p, List.mem_filter.2 ⟨hp, hm⟩, rfl⟩

theorem not_mem_waiting (hf : s.pending.find? (fun q => q.message = m) = none) {w : Message × Bool}
    (hw : w ∈ (s.view tables client teams).waiting) : w.1 ≠ m := by
  obtain ⟨p, hp, rfl⟩ := List.mem_map.1 hw
  have hne := List.find?_eq_none.1 hf p (List.mem_of_mem_filter hp)
  simpa using hne

theorem view_publish (hm : own tables teams m) (hn : m ∉ s.published) (now : Nat) :
    (step tables s (.publish m now)).view tables client teams =
      (s.view tables client teams).step tables client (.publish m now) := by
  have hpublished : m ∉ (s.view tables client teams).published :=
    fun hmem => hn (List.mem_of_mem_filter hmem)
  have hview : ({ s with published := s.published ++ [m] } : State).view tables client teams =
      { s.view tables client teams with published := (s.view tables client teams).published ++ [m] } := by
    simp [State.view, List.filter_append, hm, State.received]
  rw [step, if_neg hn, View.step, if_neg hpublished, dispatch]
  cases hr : routeEvent m.event with
  | none => exact hview
  | some route =>
      change State.view _ _ _ (if s.clients.isEmpty then _ else _) = if s.clients.isEmpty then _ else _
      split
      · exact hview
      · cases route with
        | resource kind id => simp [State.view, List.filter_append, hm, State.received, Phase.isKnown]
        | all | team =>
            rw [← hview]
            exact view_send hr fun kind id he => by cases he

theorem view_resolve (h : Inv tables s) (hm : own tables teams m) (now : Nat) :
    (step tables s (.resolve m now)).view tables client teams =
      (s.view tables client teams).step tables client (.resolve m now) := by
  have hsame (hw : ∀ w ∈ (s.view tables client teams).waiting, w.1 = m → w = (m, true)) :
      s.view tables client teams = (s.view tables client teams).step tables client (.resolve m now) := by
    have hmap : (s.view tables client teams).waiting.map (fun w => if w.1 = m then (m, true) else w) =
        (s.view tables client teams).waiting := by
      refine (List.map_congr_left fun w hmem => ?_).trans (List.map_id _)
      split
      · next he => exact (hw w hmem he).symm
      · rfl
    rw [View.step, hmap]
  rw [step]
  split
  · next kind id teamId hf => exact view_answer _ s.ownerCache
  · next kind id hf => exact view_answer _ _
  · next hcached hlook =>
    refine hsame fun w hw he => ?_
    cases hf : s.pending.find? fun p => p.message = m with
    | none => exact absurd he (not_mem_waiting hf hw)
    | some p =>
        obtain ⟨message, known⟩ := w
        subst he
        rw [← (mem_waiting_iff h hm hf known).1 hw]
        obtain ⟨message, kind, id, phase⟩ := p
        cases phase with
        | asked cached =>
            cases cached with
            | none => exact absurd hf (hlook message kind id)
            | some teamId => exact absurd hf (hcached message kind id teamId)
        | known owner => rfl

theorem view_deliver (h : Inv tables s) (hm : own tables teams m) :
    (step tables s (.deliver m)).view tables client teams = (s.view tables client teams).step tables client (.deliver m) := by
  rw [View.step]
  cases hf : s.pending.find? fun p => p.message = m with
  | none =>
      rw [if_neg fun hw => not_mem_waiting hf hw rfl]
      simp only [step, hf]
  | some p =>
      have hw : (m, true) ∈ (s.view tables client teams).waiting ↔ p.phase.isKnown = true :=
        mem_waiting_iff h hm hf true
      obtain ⟨message, kind, id, phase⟩ := p
      cases phase with
      | asked cached =>
          rw [if_neg fun hmem => by cases hw.1 hmem]
          simp only [step, hf]
      | known owner =>
          obtain ⟨hp, rfl⟩ := mem_of_found hf
          have ho : owner = lookupOwner tables kind id := (h.right _ hp).symm
          have hsend : (s.send (.resource kind id) owner message).view tables client teams =
              (s.view tables client teams).receive tables client message :=
            view_send (h.routed _ hp) fun kind' id' he => by cases he; exact ho
          rw [if_pos (hw.2 rfl)]
          simp only [step, hf]
          rw [view_forget, hsend]
          rfl

theorem view_step_own (h : Inv tables s) {a : Action} (ha : a.own tables teams) :
    (step tables s a).view tables client teams = (s.view tables client teams).step tables client a := by
  cases a with
  | publish m now =>
      have hm : own tables teams m := ha
      by_cases hn : m ∈ s.published
      · have hpublished : m ∈ (s.view tables client teams).published := List.mem_filter.2 ⟨hn, hm⟩
        rw [step, if_pos hn, View.step, if_pos hpublished]
      · exact view_publish hm hn now
  | resolve m now => exact view_resolve h ha now
  | deliver m => exact view_deliver h ha
  | fail m => exact view_forget
  | connect id teams =>
      rw [step, View.step]
      change State.view _ _ _ (if s.clients.any _ then _ else _) = if s.clients.any _ then _ else _
      split <;> rfl
  | disconnect id => rfl
  | refresh id teams => rfl

theorem ne_of_waiting (hm : own tables teams m = false) {w : Message × Bool}
    (hw : w ∈ (s.view tables client teams).waiting) :
    w.1 ≠ m := by
  rintro rfl
  obtain ⟨p, hp, rfl⟩ := List.mem_map.1 hw
  exact Bool.false_ne_true (hm.symm.trans (List.mem_filter.1 hp).2)

theorem view_answer_of_not_own (hm : own tables teams m = false) (owner : Option String) (cache : Cache) :
    ({ s.answer m owner with ownerCache := cache } : State).view tables client teams = s.view tables client teams := by
  have hmap : (s.view tables client teams).waiting.map (fun w => if w.1 = m then (m, true) else w) =
      (s.view tables client teams).waiting :=
    (List.map_congr_left fun w hw => if_neg (ne_of_waiting hm hw)).trans (List.map_id _)
  rw [view_answer, hmap]

theorem view_forget_of_not_own (hm : own tables teams m = false) :
    (s.forget m).view tables client teams = s.view tables client teams := by
  have hfilter : (s.view tables client teams).waiting.filter (fun w => w.1 ≠ m) =
      (s.view tables client teams).waiting :=
    List.filter_eq_self.2 fun w hw => decide_eq_true (ne_of_waiting hm hw)
  rw [view_forget, hfilter]

theorem view_publish_of_not_own (hm : own tables teams m = false)
    (hc : ∀ c ∈ s.clients, c.id = client → c.teams ⊆ teams) (now : Nat) :
    (step tables s (.publish m now)).view tables client teams = s.view tables client teams := by
  have hview : ({ s with published := s.published ++ [m] } : State).view tables client teams =
      s.view tables client teams := by
    simp [State.view, List.filter_append, hm, State.received]
  rw [step]
  split
  · rfl
  · rw [dispatch]
    cases hr : routeEvent m.event with
    | none => exact hview
    | some route =>
        change State.view _ _ _ (if s.clients.isEmpty then _ else _) = _
        split
        · exact hview
        · cases route with
          | resource kind id => simp [State.view, List.filter_append, hm, State.received]
          | all | team =>
              rw [← hview]
              exact view_send_of_not_own (s := { s with published := s.published ++ [m] }) hm hc hr
                fun kind id he => by cases he

theorem view_step_not_own (h : Inv tables s) (hc : ∀ c ∈ s.clients, c.id = client → c.teams ⊆ teams)
    {a : Action}
    (ha : a.own tables teams = false) :
    (step tables s a).view tables client teams = s.view tables client teams := by
  cases a with
  | publish m now => exact view_publish_of_not_own ha hc now
  | resolve m now =>
      rw [step]
      split
      · exact view_answer_of_not_own ha _ s.ownerCache
      · exact view_answer_of_not_own ha _ _
      · rfl
  | deliver m =>
      rw [step]
      split
      · next kind id owner hf =>
        obtain ⟨hp, rfl⟩ := mem_of_found hf
        have ho : owner = lookupOwner tables kind id := (h.right _ hp).symm
        rw [view_forget_of_not_own ha]
        exact view_send_of_not_own ha hc (h.routed _ hp) fun kind' id' he => by cases he; exact ho
      · rfl
  | fail m => exact view_forget_of_not_own ha
  | connect | disconnect | refresh => cases ha

theorem teams_step (hc : ∀ c ∈ s.clients, c.id = client → c.teams ⊆ teams) {a : Action}
    (ha : a.gives client ⊆ teams) :
    ∀ c ∈ (step tables s a).clients, c.id = client → c.teams ⊆ teams := by
  cases a with
  | publish m now =>
      have hclients : (step tables s (.publish m now)).clients = s.clients := by
        rw [step]
        split
        · rfl
        · rw [dispatch]
          split
          · rfl
          · split
            · rfl
            · split <;> rfl
      rwa [hclients]
  | resolve m now =>
      rw [step]
      split <;> exact hc
  | deliver m =>
      rw [step]
      split <;> exact hc
  | fail m => exact hc
  | connect id given =>
      rw [step]
      split
      · exact hc
      · intro c hmem hid
        rcases List.mem_append.1 hmem with hmem | hmem
        · exact hc c hmem hid
        · rw [List.mem_singleton.1 hmem] at hid ⊢
          rwa [Action.gives, if_pos hid] at ha
  | disconnect id => exact fun c hmem => hc c (List.mem_of_mem_filter hmem)
  | refresh id given =>
      intro c hmem hid
      obtain ⟨d, hd, rfl⟩ := List.mem_map.1 hmem
      by_cases hdid : d.id = id
      · rw [if_pos hdid] at hid ⊢
        have heq : id = client := hdid.symm.trans hid
        rwa [Action.gives, if_pos heq] at ha
      · rw [if_neg hdid] at hid ⊢
        exact hc d hd hid

/-- The client's stream is that of the service without the other teams' messages, and without the cache. -/
theorem view_run (actions : List Action) (hgiven : ∀ a ∈ actions, a.gives client ⊆ teams) (h : Inv tables s)
    (hc : ∀ c ∈ s.clients, c.id = client → c.teams ⊆ teams) :
    (run (step tables) s actions).view tables client teams =
      run (View.step tables client) (s.view tables client teams) (actions.filter (Action.own tables teams)) := by
  induction actions generalizing s with
  | nil => rfl
  | cons a actions ih =>
      have hnext := ih (fun b hb => hgiven b (List.mem_cons_of_mem _ hb)) (inv_step h a)
        (teams_step hc (hgiven a List.mem_cons_self))
      rw [run, List.foldl_cons]
      refine hnext.trans ?_
      cases ha : a.own tables teams with
      | true => rw [List.filter_cons_of_pos ha, view_step_own h ha, run, run, List.foldl_cons]
      | false => rw [List.filter_cons_of_neg (by simp [ha]), view_step_not_own h hc ha]

def givenTeams (client : Nat) (actions : List Action) : List String :=
  actions.flatMap (Action.gives client)

/-- For every run of the service: nobody is sent an event of a team that is not his, and the actions of other teams' events do
not change what a client receives. -/
theorem stream_isolated (tables : Tables) (actions : List Action) :
    (∀ d ∈ (run (step tables) State.empty actions).sent, Entitled tables d.1.teams d.2.event) ∧
    (∀ d ∈ (run (step tables) State.empty actions).sent, routeEvent d.2.event ≠ some .all → (teamOf tables d.2.event).isSome) ∧
    ∀ (client : Nat) (others : List Action),
      others.filter (Action.own tables (givenTeams client actions)) = actions.filter (Action.own tables (givenTeams client actions)) →
      (run (step tables) State.empty others).received client = (run (step tables) State.empty actions).received client := by
  have hinv := inv_run tables actions
  refine ⟨hinv.sent, fun d hd hr => ?_, fun client others h => ?_⟩
  · obtain ⟨team, -, hteam⟩ := (entitled_iff_teamOf hr).1 (hinv.sent d hd)
    rw [hteam]
    rfl
  · have hgiven : ∀ a ∈ actions, a.gives client ⊆ givenTeams client actions :=
      fun a ha team ht => List.mem_flatMap.2 ⟨a, ha, ht⟩
    have hothers : ∀ a ∈ others, a.gives client ⊆ givenTeams client actions := by
      intro a ha
      cases hown : a.own tables (givenTeams client actions) with
      | true => exact hgiven a (List.mem_of_mem_filter (h ▸ List.mem_filter.2 ⟨ha, hown⟩))
      | false =>
          cases a with
          | connect | disconnect | refresh => cases hown
          | _ => exact List.nil_subset _
    have hempty : ∀ c ∈ State.empty.clients, c.id = client → c.teams ⊆ givenTeams client actions :=
      fun c hc => by cases hc
    have hview : (run (step tables) State.empty actions).view tables client (givenTeams client actions) = _ :=
      view_run actions hgiven inv_empty hempty
    have hview' : (run (step tables) State.empty others).view tables client (givenTeams client actions) = _ :=
      view_run others hothers inv_empty hempty
    rw [h, ← hview] at hview'
    exact congrArg View.received hview'

end View

end Yeah.Events
