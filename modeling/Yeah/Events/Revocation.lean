import Yeah.Events.Stream

namespace Yeah.Events

open Runs

/-! ### The sessions, the memberships and the sockets -/

/-- What the ws service reads: the users of the sessions that have not expired, the teams of a user, and whether reads
fail. -/
structure World where
  sessions : String → Option String
  members : String → List String
  down : Bool

namespace World

variable (w : World)

/-- `none` if the read throws. -/
def findSessionUserId (sessionId : String) : Option (Option String) :=
  if sessionId = "" then some none else if w.down then none else some (w.sessions sessionId)

def loadTeams (userId : String) : Option (List String) := if w.down then none else some (w.members userId)

end World

/-- The `ConnData` of a socket but for its teams, which its `Client` has. -/
structure Conn where
  id : Nat
  sessionId : String
  userId : String
  deriving DecidableEq

/-- Where an upgrade waits: for an answer of the database, or to go on with one. -/
inductive Stage
  | session
  | sessionRead (userId : Option String)
  | teams (userId : String)
  | teamsRead (userId : String) (teams : Option (List String))

structure Upgrade where
  id : Nat
  sessionId : String
  stage : Stage

/-- Where `refreshAll` is with a socket. -/
inductive Turn
  | next
  | session (c : Conn)
  | sessionRead (c : Conn) (answer : Option (Option String))
  | teams (c : Conn)
  | teamsRead (c : Conn) (answer : Option (List String))

structure Sweep where
  rest : List Conn
  turn : Turn

/-- The ws service with what it reads. `refreshing` is set as long as there is a sweep. -/
structure Live where
  world : World
  stream : State
  conns : List Conn
  nextId : Nat
  upgrades : List Upgrade
  sweep : Option Sweep

inductive LiveAction
  | world (w : World)
  | publish (m : Message) (now : Nat)
  | resolve (m : Message) (now : Nat)
  | deliver (m : Message)
  | fail (m : Message)
  | request (sessionId : String)
  /-- The database answers what an upgrade, or the sweep, waits for. -/
  | upgradeRead (i : Nat)
  | upgrade (i : Nat)
  | close (id : Nat)
  | tick
  | sweepRead
  | sweep

section Service

variable (tables : Tables)

namespace Live

variable (s : Live)

def act (a : Action) : Live := { s with stream := step tables s.stream a }

def drop (i : Nat) : Live := { s with upgrades := s.upgrades.eraseIdx i }

def stage (i : Nat) (u : Upgrade) (stage : Stage) : Live := { s with upgrades := s.upgrades.set i { u with stage := stage } }

/-- `close` and the handler of its event, after which nothing is sent to the socket. -/
def close (id : Nat) : Live := { s.act tables (.disconnect id) with conns := s.conns.filter fun c => c.id ≠ id }

def upgradeRead (i : Nat) (u : Upgrade) : Live :=
  match u.stage with
  | .session => s.stage i u (.sessionRead (s.world.findSessionUserId u.sessionId).join)
  | .teams userId => s.stage i u (.teamsRead userId (s.world.loadTeams userId))
  | _ => s

def upgrade (i : Nat) (u : Upgrade) : Live :=
  match u.stage with
  | .sessionRead none => s.drop i
  | .sessionRead (some userId) => s.stage i u (.teams userId)
  | .teamsRead _ none => s.drop i
  | .teamsRead userId (some teams) =>
      { (s.drop i).act tables (.connect u.id teams) with conns := s.conns ++ [⟨u.id, u.sessionId, userId⟩] }
  | _ => s

def sweepRead (w : Sweep) : Live :=
  match w.turn with
  | .session c => { s with sweep := some { w with turn := .sessionRead c (s.world.findSessionUserId c.sessionId) } }
  | .teams c => { s with sweep := some { w with turn := .teamsRead c (s.world.loadTeams c.userId) } }
  | _ => s

def goOn (rest : List Conn) : Live := { s with sweep := some ⟨rest, .next⟩ }

/-- `refreshAll`, from one answer to the next. -/
def refreshAll (w : Sweep) : Live :=
  match w.turn, w.rest with
  | .next, [] => { s with sweep := none }
  | .next, c :: rest => { s with sweep := some ⟨rest, .session c⟩ }
  | .sessionRead _ none, rest => s.goOn rest
  | .sessionRead c (some none), rest => (s.close tables c.id).goOn rest
  | .sessionRead c (some (some _)), rest => { s with sweep := some ⟨rest, .teams c⟩ }
  | .teamsRead _ none, rest => s.goOn rest
  | .teamsRead c (some teams), rest => (s.act tables (.refresh c.id teams)).goOn rest
  | _, _ => s

def step (s : Live) : LiveAction → Live
  | .world w => { s with world := w }
  | .publish m now => s.act tables (.publish m now)
  | .resolve m now => s.act tables (.resolve m now)
  | .deliver m => s.act tables (.deliver m)
  | .fail m => s.act tables (.fail m)
  | .request sessionId => { s with nextId := s.nextId + 1, upgrades := s.upgrades ++ [⟨s.nextId, sessionId, .session⟩] }
  | .upgradeRead i => match s.upgrades[i]? with
    | some u => s.upgradeRead i u
    | none => s
  | .upgrade i => match s.upgrades[i]? with
    | some u => s.upgrade tables i u
    | none => s
  | .close id => s.close tables id
  | .tick => if s.sweep.isSome then s else { s with sweep := some ⟨s.conns, .next⟩ }
  | .sweepRead => match s.sweep with
    | some w => s.sweepRead w
    | none => s
  | .sweep => match s.sweep with
    | some w => s.refreshAll tables w
    | none => s

def start (world : World) : Live := ⟨world, .empty, [], 0, [], none⟩

end Live

variable {tables}

/-! ### The ids of the sockets -/

def Turn.conn : Turn → Option Conn
  | .next => none
  | .session c | .sessionRead c _ | .teams c | .teamsRead c _ => some c

/-- A socket that the service has, or that the sweep still has from before. -/
def Live.Has (s : Live) (c : Conn) : Prop := c ∈ s.conns ∨ ∃ w, s.sweep = some w ∧ (c ∈ w.rest ∨ w.turn.conn = some c)

/-- No socket is new, and no upgrade. -/
structure Shrinks (s t : Live) : Prop where
  nextId : t.nextId = s.nextId
  upgrades : (t.upgrades.map Upgrade.id).Sublist (s.upgrades.map Upgrade.id)
  has : ∀ c, t.Has c → s.Has c

theorem Shrinks.of_sweep {s t : Live} (hnext : t.nextId = s.nextId)
    (hupgrades : (t.upgrades.map Upgrade.id).Sublist (s.upgrades.map Upgrade.id)) (hconns : t.conns ⊆ s.conns)
    (hsweep : t.sweep = s.sweep) : Shrinks s t where
  nextId := hnext
  upgrades := hupgrades
  has := fun c hc => by
    rw [Live.Has, hsweep] at hc
    exact hc.imp_left fun hmem => hconns hmem

theorem ids_stage {s : Live} {i : Nat} {u : Upgrade} (hu : s.upgrades[i]? = some u) (stage : Stage) :
    (s.stage i u stage).upgrades.map Upgrade.id = s.upgrades.map Upgrade.id := by
  apply List.ext_getElem?
  intro j
  rw [Live.stage, List.getElem?_map, List.getElem?_map, List.getElem?_set]
  split
  next h =>
    subst h
    obtain ⟨hlt, -⟩ := List.getElem?_eq_some_iff.1 hu
    rw [if_pos hlt, hu]
    rfl
  next => rfl

theorem shrinks_stage {s : Live} {i : Nat} {u : Upgrade} (hu : s.upgrades[i]? = some u) (stage : Stage) :
    Shrinks s (s.stage i u stage) :=
  .of_sweep rfl (by rw [ids_stage hu]) (List.Subset.refl _) rfl

theorem shrinks_drop {s : Live} (i : Nat) : Shrinks s (s.drop i) :=
  .of_sweep rfl ((List.eraseIdx_sublist _ _).map _) (List.Subset.refl _) rfl

theorem shrinks_close {s : Live} (id : Nat) : Shrinks s (s.close tables id) :=
  .of_sweep rfl (List.Sublist.refl _) (List.filter_subset_self _) rfl

theorem shrinks_act {s : Live} (a : Action) : Shrinks s (s.act tables a) :=
  .of_sweep rfl (List.Sublist.refl _) (List.Subset.refl _) rfl

theorem Shrinks.refl (s : Live) : Shrinks s s := .of_sweep rfl (List.Sublist.refl _) (List.Subset.refl _) rfl

/-- The sweep goes on with what it has. -/
theorem Shrinks.go {s t : Live} {w w' : Sweep} (h : Shrinks s t) (hs : t.sweep = some w)
    (hw : ∀ c, (c ∈ w'.rest ∨ w'.turn.conn = some c) → c ∈ w.rest ∨ w.turn.conn = some c) :
    Shrinks s { t with sweep := some w' } where
  nextId := h.nextId
  upgrades := h.upgrades
  has := fun c hc => by
    refine h.has c (hc.imp_right ?_)
    rintro ⟨v, hv, hcv⟩
    obtain rfl := Option.some.inj hv
    exact ⟨w, hs, hw c hcv⟩

theorem shrinks_refreshAll {s : Live} {w : Sweep} (hw : s.sweep = some w) : Shrinks s (s.refreshAll tables w) := by
  obtain ⟨rest, turn⟩ := w
  have hrest : ∀ c, (c ∈ (⟨rest, .next⟩ : Sweep).rest ∨ Turn.next.conn = some c) → c ∈ rest ∨ turn.conn = some c :=
    fun c hc => Or.inl (hc.resolve_right fun h => by cases h)
  cases turn with
  | next =>
      cases rest with
      | nil =>
          refine ⟨rfl, List.Sublist.refl _, fun c hc => Or.inl (hc.resolve_right ?_)⟩
          rintro ⟨v, hv, -⟩
          cases hv
      | cons d rest =>
          refine (Shrinks.refl s).go hw fun c hc => Or.inl ?_
          rcases hc with hc | hc
          · exact List.mem_cons_of_mem _ hc
          · exact Option.some.inj hc ▸ List.mem_cons_self
  | session d | teams d => exact Shrinks.refl s
  | sessionRead d answer =>
      cases answer with
      | none => exact (Shrinks.refl s).go hw hrest
      | some user =>
          cases user with
          | none => exact (shrinks_close d.id).go hw hrest
          | some user => exact (Shrinks.refl s).go hw fun c hc => hc
  | teamsRead d answer =>
      cases answer with
      | none => exact (Shrinks.refl s).go hw hrest
      | some teams => exact (shrinks_act (.refresh d.id teams)).go hw hrest

theorem shrinks_sweepRead {s : Live} {w : Sweep} (hw : s.sweep = some w) : Shrinks s (s.sweepRead w) := by
  obtain ⟨rest, turn⟩ := w
  cases turn with
  | session d | teams d => exact (Shrinks.refl s).go hw fun c hc => hc
  | next | sessionRead d answer | teamsRead d answer => exact Shrinks.refl s

/-- What a step may do to the sockets: take a new upgrade, or open the socket of one. -/
inductive Grows (tables : Tables) (s : Live) : Live → Prop
  | shrinks {t : Live} (h : Shrinks s t) : Grows tables s t
  | request (sessionId : String) :
      Grows tables s { s with nextId := s.nextId + 1, upgrades := s.upgrades ++ [⟨s.nextId, sessionId, .session⟩] }
  | opens {i : Nat} {u : Upgrade} (hu : s.upgrades[i]? = some u) (userId : String) (teams : List String) :
      Grows tables s { (s.drop i).act tables (.connect u.id teams) with conns := s.conns ++ [⟨u.id, u.sessionId, userId⟩] }

theorem grows_upgrade {s : Live} {i : Nat} {u : Upgrade} (hu : s.upgrades[i]? = some u) :
    Grows tables s (s.upgrade tables i u) := by
  rw [Live.upgrade]
  split
  · exact .shrinks (shrinks_drop i)
  · exact .shrinks (shrinks_stage hu _)
  · exact .shrinks (shrinks_drop i)
  · exact .opens hu _ _
  · exact .shrinks (Shrinks.refl s)

theorem grows_step (s : Live) (a : LiveAction) : Grows tables s (s.step tables a) := by
  cases a with
  | world w => exact .shrinks (.of_sweep rfl (List.Sublist.refl _) (List.Subset.refl _) rfl)
  | publish m now => exact .shrinks (shrinks_act _)
  | resolve m now => exact .shrinks (shrinks_act _)
  | deliver m => exact .shrinks (shrinks_act _)
  | fail m => exact .shrinks (shrinks_act _)
  | request sessionId => exact .request sessionId
  | upgradeRead i =>
      rw [Live.step]
      split
      next u hu =>
        rw [Live.upgradeRead]
        split
        · exact .shrinks (shrinks_stage hu _)
        · exact .shrinks (shrinks_stage hu _)
        · exact .shrinks (Shrinks.refl s)
      next => exact .shrinks (Shrinks.refl s)
  | upgrade i =>
      rw [Live.step]
      split
      next u hu => exact grows_upgrade hu
      next => exact .shrinks (Shrinks.refl s)
  | close id => exact .shrinks (shrinks_close id)
  | tick =>
      rw [Live.step]
      split
      next => exact .shrinks (Shrinks.refl s)
      next =>
        refine .shrinks ⟨rfl, List.Sublist.refl _, fun c hc => Or.inl ?_⟩
        rcases hc with hc | ⟨w, hw, hc⟩
        · exact hc
        · obtain rfl := Option.some.inj hw
          exact hc.resolve_right fun h => by cases h
  | sweepRead =>
      rw [Live.step]
      split
      next w hw => exact .shrinks (shrinks_sweepRead hw)
      next => exact .shrinks (Shrinks.refl s)
  | sweep =>
      rw [Live.step]
      split
      next w hw => exact .shrinks (shrinks_refreshAll hw)
      next => exact .shrinks (Shrinks.refl s)

/-- What a step does to the database, the stream and the sweep. -/
inductive Turns (tables : Tables) (s : Live) : LiveAction → Live → Prop
  | world (w : World) : Turns tables s (.world w) { s with world := w }
  | quiet {a : LiveAction} {t : Live} (hworld : t.world = s.world) (hstream : t.stream = s.stream) (hsweep : t.sweep = s.sweep) :
      Turns tables s a t
  | acts {a : LiveAction} {t : Live} (b : Action)
      (hb : b.message.isSome ∨ (∃ id, b = .disconnect id) ∨ ∃ u ∈ s.upgrades, ∃ given, b = .connect u.id given)
      (hworld : t.world = s.world) (hstream : t.stream = Events.step tables s.stream b) (hsweep : t.sweep = s.sweep) :
      Turns tables s a t
  | ticks {a : LiveAction} (h : s.sweep = none) : Turns tables s a { s with sweep := some ⟨s.conns, .next⟩ }
  | reads {a : LiveAction} {w : Sweep} (h : s.sweep = some w) : Turns tables s a (s.sweepRead w)
  | sweeps {a : LiveAction} {w : Sweep} (h : s.sweep = some w) : Turns tables s a (s.refreshAll tables w)

theorem turns_act {a : LiveAction} (s : Live) {b : Action} (hb : b.message.isSome) : Turns tables s a (s.act tables b) :=
  .acts b (Or.inl hb) rfl rfl rfl

theorem turns_upgrade {a : LiveAction} {s : Live} {i : Nat} {u : Upgrade} (hu : s.upgrades[i]? = some u) :
    Turns tables s a (s.upgrade tables i u) := by
  rw [Live.upgrade]
  split
  · exact .quiet rfl rfl rfl
  · exact .quiet rfl rfl rfl
  · exact .quiet rfl rfl rfl
  next given _ => exact .acts (.connect u.id given) (Or.inr (Or.inr ⟨u, List.mem_of_getElem? hu, given, rfl⟩)) rfl rfl rfl
  · exact .quiet rfl rfl rfl

theorem turns_step (s : Live) (a : LiveAction) : Turns tables s a (s.step tables a) := by
  cases a with
  | world w => exact .world w
  | publish m now => exact turns_act s rfl
  | resolve m now => exact turns_act s rfl
  | deliver m => exact turns_act s rfl
  | fail m => exact turns_act s rfl
  | request sessionId => exact .quiet rfl rfl rfl
  | upgradeRead i =>
      rw [Live.step]
      split
      next u hu =>
        rw [Live.upgradeRead]
        split <;> exact .quiet rfl rfl rfl
      next => exact .quiet rfl rfl rfl
  | upgrade i =>
      rw [Live.step]
      split
      next u hu => exact turns_upgrade hu
      next => exact .quiet rfl rfl rfl
  | close id => exact .acts (.disconnect id) (Or.inr (Or.inl ⟨id, rfl⟩)) rfl rfl rfl
  | tick =>
      rw [Live.step]
      split
      next => exact .quiet rfl rfl rfl
      next h => exact .ticks (Option.not_isSome_iff_eq_none.1 h)
  | sweepRead =>
      rw [Live.step]
      split
      next w hw => exact .reads hw
      next => exact .quiet rfl rfl rfl
  | sweep =>
      rw [Live.step]
      split
      next w hw => exact .sweeps hw
      next => exact .quiet rfl rfl rfl

/-- No two sockets with one id, and none with the id of an upgrade. -/
structure Sane (s : Live) : Prop where
  upgrades : ∀ u ∈ s.upgrades, u.id < s.nextId
  conns : ∀ c, s.Has c → c.id < s.nextId
  nodup : (s.upgrades.map Upgrade.id).Nodup
  apart : ∀ u ∈ s.upgrades, ∀ c, s.Has c → u.id ≠ c.id
  unique : ∀ c d, s.Has c → s.Has d → c.id = d.id → c = d

theorem sane_start (world : World) : Sane (Live.start world) where
  upgrades := fun _ h => by cases h
  conns := fun _ h => by rcases h with h | ⟨_, h, -⟩ <;> cases h
  nodup := List.nodup_nil
  apart := fun _ h => by cases h
  unique := fun _ _ h => by rcases h with h | ⟨_, h, -⟩ <;> cases h

theorem Shrinks.upgrade {s t : Live} (h : Shrinks s t) {u : Upgrade} (hu : u ∈ t.upgrades) : ∃ v ∈ s.upgrades, v.id = u.id :=
  List.mem_map.1 (h.upgrades.subset (List.mem_map_of_mem hu))

/-- The other upgrades have other ids. -/
theorem id_ne_of_eraseIdx {us : List Upgrade} (h : (us.map Upgrade.id).Nodup) {i : Nat} {u v : Upgrade} (hu : us[i]? = some u)
    (hv : v ∈ us.eraseIdx i) : v.id ≠ u.id := by
  induction us generalizing i with
  | nil => cases hv
  | cons w us ih =>
      obtain ⟨hw, hus⟩ := List.nodup_cons.1 h
      cases i with
      | zero =>
          obtain rfl := Option.some.inj hu
          exact fun he => hw (he ▸ List.mem_map_of_mem hv)
      | succ i =>
          rcases List.mem_cons.1 hv with rfl | hv
          · exact fun he => hw (he ▸ List.mem_map_of_mem (List.mem_of_getElem? hu))
          · exact ih hus hu hv

theorem has_opens {s : Live} {i : Nat} {u : Upgrade} {userId : String} {teams : List String} {c : Conn}
    (h : Live.Has { (s.drop i).act tables (.connect u.id teams) with conns := s.conns ++ [⟨u.id, u.sessionId, userId⟩] } c) :
    s.Has c ∨ c = ⟨u.id, u.sessionId, userId⟩ := by
  rcases h with h | h
  · rcases List.mem_append.1 h with h | h
    · exact Or.inl (Or.inl h)
    · exact Or.inr (List.mem_singleton.1 h)
  · exact Or.inl (Or.inr h)

theorem Sane.grows {s t : Live} (h : Sane s) (hg : Grows tables s t) : Sane t := by
  cases hg with
  | shrinks hs =>
      refine ⟨fun u hu => ?_, fun c hc => ?_, h.nodup.sublist hs.upgrades, fun u hu c hc => ?_, fun c d hc hd => ?_⟩
      · obtain ⟨v, hv, hid⟩ := hs.upgrade hu
        rw [hs.nextId, ← hid]
        exact h.upgrades v hv
      · exact hs.nextId ▸ h.conns c (hs.has c hc)
      · obtain ⟨v, hv, hid⟩ := hs.upgrade hu
        exact hid ▸ h.apart v hv c (hs.has c hc)
      · exact h.unique c d (hs.has c hc) (hs.has d hd)
  | request sessionId =>
      refine ⟨fun u hu => ?_, fun c hc => Nat.lt_succ_of_lt (h.conns c hc), ?_, fun u hu c hc => ?_, h.unique⟩
      · rcases List.mem_append.1 hu with hu | hu
        · exact Nat.lt_succ_of_lt (h.upgrades u hu)
        · obtain rfl := List.mem_singleton.1 hu
          exact Nat.lt_succ_self _
      · rw [List.map_append, List.nodup_append]
        refine ⟨h.nodup, List.nodup_singleton _, fun m hm n hn => ?_⟩
        obtain ⟨u, hu, rfl⟩ := List.mem_map.1 hm
        obtain rfl := List.mem_singleton.1 hn
        exact (h.upgrades u hu).ne
      · rcases List.mem_append.1 hu with hu | hu
        · exact h.apart u hu c hc
        · exact List.mem_singleton.1 hu ▸ (h.conns c hc).ne'
  | opens hu userId teams =>
      rename_i i u
      have hmem := List.mem_of_getElem? hu
      have herase : ∀ v ∈ s.upgrades.eraseIdx i, v ∈ s.upgrades := fun v => List.mem_of_mem_eraseIdx
      refine ⟨fun v hv => h.upgrades v (herase v hv), fun c hc => ?_, h.nodup.sublist ((List.eraseIdx_sublist _ _).map _),
        fun v hv c hc => ?_, fun c d hc hd hid => ?_⟩
      · rcases has_opens hc with hc | rfl
        · exact h.conns c hc
        · exact h.upgrades u hmem
      · rcases has_opens hc with hc | rfl
        · exact h.apart v (herase v hv) c hc
        · exact id_ne_of_eraseIdx h.nodup hu hv
      · rcases has_opens hc with hc | rfl
        · rcases has_opens hd with hd | rfl
          · exact h.unique c d hc hd hid
          · exact absurd hid.symm (h.apart u hmem c hc)
        · rcases has_opens hd with hd | rfl
          · exact absurd hid (h.apart u hmem d hd)
          · rfl

/-- Nothing but the socket itself will ever have its id. -/
structure Once (c : Conn) (s : Live) : Prop where
  bound : c.id < s.nextId
  upgrades : ∀ u ∈ s.upgrades, u.id ≠ c.id
  same : ∀ d, s.Has d → d.id = c.id → d = c

theorem Sane.once {s : Live} (h : Sane s) {c : Conn} (hc : s.Has c) : Once c s :=
  ⟨h.conns c hc, fun u hu => h.apart u hu c hc, fun d hd hid => h.unique d c hd hc hid⟩

theorem Once.grows {s t : Live} {c : Conn} (h : Once c s) (hg : Grows tables s t) : Once c t := by
  cases hg with
  | shrinks hs =>
      refine ⟨hs.nextId ▸ h.bound, fun u hu => ?_, fun d hd => h.same d (hs.has d hd)⟩
      obtain ⟨v, hv, hid⟩ := hs.upgrade hu
      exact hid ▸ h.upgrades v hv
  | request sessionId =>
      refine ⟨Nat.lt_succ_of_lt h.bound, fun u hu => ?_, h.same⟩
      rcases List.mem_append.1 hu with hu | hu
      · exact h.upgrades u hu
      · exact List.mem_singleton.1 hu ▸ h.bound.ne'
  | opens hu userId teams =>
      refine ⟨h.bound, fun v hv => h.upgrades v (List.mem_of_mem_eraseIdx hv), fun d hd hid => ?_⟩
      rcases has_opens hd with hd | rfl
      · exact h.same d hd hid
      · exact absurd hid (h.upgrades _ (List.mem_of_getElem? hu))

/-! ### Revocation -/

/-- What is taken from a socket: its session, or its user's membership of a team. -/
inductive Revocation
  | session
  | membership (teamId : String)

namespace Revocation

def In (r : Revocation) (c : Conn) (w : World) : Prop :=
  match r with
  | session => w.sessions c.sessionId = none
  | membership teamId => teamId ∉ w.members c.userId

/-- The teams that a socket may go on with. -/
def Past (r : Revocation) (teams : List String) : Prop :=
  match r with
  | session => False
  | membership teamId => teamId ∉ teams

/-- What the socket must not be sent any more. -/
def Covers (tables : Tables) (r : Revocation) (event : Event) : Prop :=
  match r with
  | session => True
  | membership teamId => teamOf tables event = some teamId

end Revocation

/-- What the sweep has read about the socket was read after the revocation. -/
def Turn.Fresh (r : Revocation) (c : Conn) : Turn → Prop
  | .sessionRead d (some (some _)) => d = c → r ≠ .session
  | .teams d => d = c → r ≠ .session
  | .teamsRead d (some read) => d = c → r.Past read
  | _ => True

/-- The sweep is with the socket, and no read about it has failed. -/
def Turn.On (c : Conn) : Turn → Prop
  | .session d | .sessionRead d (some _) | .teams d | .teamsRead d (some _) => d = c
  | _ => False

section Socket

variable {r : Revocation} {c : Conn} {s : Live}

def Done (r : Revocation) (c : Conn) (s : Live) : Prop := ∀ l ∈ s.stream.clients, l.id = c.id → r.Past l.teams

def Due (c : Conn) (s : Live) : Prop := ∃ w, s.sweep = some w ∧ (c ∈ w.rest ∨ w.turn.On c)

structure Followed (r : Revocation) (c : Conn) (s : Live) : Prop where
  once : Once c s
  fresh : ∀ w, s.sweep = some w → w.turn.Fresh r c

theorem fresh_sessionRead (hr : r.In c s.world) (d : Conn) :
    (Turn.sessionRead d (s.world.findSessionUserId d.sessionId)).Fresh r c := by
  cases h : s.world.findSessionUserId d.sessionId with
  | none => trivial
  | some user =>
      cases user with
      | none => trivial
      | some user =>
          rintro rfl rfl
          rw [World.findSessionUserId] at h
          split_ifs at h
          · cases h
          · cases (Option.some.inj h).symm.trans hr

theorem fresh_teamsRead (hr : r.In c s.world) {d : Conn} (hd : (Turn.teams d).Fresh r c) :
    (Turn.teamsRead d (s.world.loadTeams d.userId)).Fresh r c := by
  cases h : s.world.loadTeams d.userId with
  | none => trivial
  | some teams =>
      rintro rfl
      rw [World.loadTeams] at h
      split_ifs at h
      obtain rfl := Option.some.inj h
      cases r with
      | session => exact hd rfl rfl
      | membership teamId => exact hr

theorem fresh_step (hr : r.In c s.world) (hfresh : ∀ w, s.sweep = some w → w.turn.Fresh r c) (a : LiveAction) :
    ∀ w, (s.step tables a).sweep = some w → w.turn.Fresh r c := by
  have hturns := @turns_step tables s a
  generalize s.step tables a = t at hturns ⊢
  cases hturns with
  | world w => exact hfresh
  | quiet _ _ hsweep | acts _ _ _ _ hsweep => rwa [hsweep]
  | ticks h =>
      intro w hw
      obtain rfl := Option.some.inj hw
      trivial
  | reads hv =>
      rw [Live.sweepRead]
      split
      next d hd =>
        intro w hw
        obtain rfl := Option.some.inj hw
        exact fresh_sessionRead hr d
      next d hd =>
        intro w hw
        obtain rfl := Option.some.inj hw
        exact fresh_teamsRead hr (hd ▸ hfresh _ hv)
      next => exact hfresh
  | @sweeps _ v hv =>
      have hturn := hfresh v hv
      obtain ⟨rest, turn⟩ := v
      have hgo : ∀ (t : Live) (w : Sweep), (t.goOn rest).sweep = some w → w.turn.Fresh r c := by
        intro t w hw
        obtain rfl := Option.some.inj hw
        trivial
      cases turn with
      | next =>
          cases rest with
          | nil =>
              intro w hw
              cases hw
          | cons d rest =>
              intro w hw
              obtain rfl := Option.some.inj hw
              trivial
      | session d | teams d => exact hfresh
      | sessionRead d answer =>
          cases answer with
          | none => exact hgo _
          | some user =>
              cases user with
              | none => exact hgo _
              | some user =>
                  intro w hw
                  obtain rfl := Option.some.inj hw
                  exact hturn
      | teamsRead d answer => cases answer <;> exact hgo _

theorem Followed.step (tables : Tables) (h : Followed r c s) (hr : r.In c s.world) (a : LiveAction) : Followed r c (s.step tables a) :=
  ⟨h.once.grows (grows_step s a), fresh_step hr h.fresh a⟩

/-! ### What the clients keep, and what they are sent -/

theorem clients_of_message {u : State} {a : Action} {m : Message} (ha : a.message = some m) :
    (Events.step tables u a).clients = u.clients := by
  cases a with
  | publish m now =>
      rw [Events.step]
      split
      · rfl
      · rw [dispatch]
        split
        · rfl
        · split
          · rfl
          · split <;> rfl
  | resolve m now =>
      rw [Events.step]
      split <;> rfl
  | deliver m =>
      rw [Events.step]
      split <;> rfl
  | fail m => rfl
  | connect | disconnect | refresh => cases ha

theorem Done.of_subset {t : Live} (h : Done r c s) (ht : t.stream.clients ⊆ s.stream.clients) : Done r c t :=
  fun l hl => h l (ht hl)

theorem done_close (h : Done r c s) (id : Nat) : Done r c (s.close tables id) := h.of_subset (List.filter_subset_self _)

theorem done_refresh (h : Done r c s) {d : Conn} (hs : s.Has d) (honce : Once c s) {given : List String}
    (hpast : d = c → r.Past given) : Done r c (s.act tables (.refresh d.id given)) := by
  intro l hl hid
  obtain ⟨k, hk, rfl⟩ := List.mem_map.1 hl
  split at hid
  next hkd =>
    rw [if_pos hkd]
    exact hpast (honce.same d hs (hkd.symm.trans hid))
  next hkd =>
    rw [if_neg hkd]
    exact h k hk hid

theorem done_acts {b : Action} (ht : Followed r c s) (h : Done r c s)
    (hb : b.message.isSome ∨ (∃ id, b = .disconnect id) ∨ ∃ u ∈ s.upgrades, ∃ given, b = .connect u.id given) :
    Done r c (s.act tables b) := by
  obtain hm | ⟨id, rfl⟩ | ⟨u, hu, given, rfl⟩ := hb
  · obtain ⟨m, hm⟩ := Option.isSome_iff_exists.1 hm
    exact h.of_subset fun l hl => by rwa [Live.act, clients_of_message hm] at hl
  · exact h.of_subset (List.filter_subset_self _)
  · intro l hl hl'
    rw [Live.act, Events.step] at hl
    split at hl
    next => exact h l hl hl'
    next =>
      rcases List.mem_append.1 hl with hl | hl
      · exact h l hl hl'
      · obtain rfl := List.mem_singleton.1 hl
        exact absurd hl' (ht.once.upgrades u hu)

theorem done_step (ht : Followed r c s) (h : Done r c s) (a : LiveAction) : Done r c (s.step tables a) := by
  have hturns := @turns_step tables s a
  generalize s.step tables a = t at hturns ⊢
  cases hturns with
  | world w => exact h
  | quiet _ hstream _ => rwa [Done, hstream]
  | acts b hb _ hstream _ =>
      rw [Done, hstream]
      exact done_acts ht h hb
  | ticks hidle => exact h
  | reads hv =>
      rw [Live.sweepRead]
      split <;> exact h
  | @sweeps _ v hv =>
      have hturn := ht.fresh v hv
      obtain ⟨rest, turn⟩ := v
      cases turn with
      | next => cases rest <;> exact h
      | session d | teams d => exact h
      | sessionRead d answer =>
          cases answer with
          | none => exact h
          | some user =>
              cases user with
              | none => exact @done_close tables r c s h d.id
              | some user => exact h
      | teamsRead d answer =>
          cases answer with
          | none => exact h
          | some given => exact @done_refresh tables r c s h d (Or.inr ⟨_, hv, Or.inr rfl⟩) ht.once given hturn

/-- The turn of the socket ends with it being done. -/
theorem done_refresh_self {given : List String} (hpast : r.Past given) : Done r c (s.act tables (.refresh c.id given)) := by
  intro l hl hid
  obtain ⟨k, hk, rfl⟩ := List.mem_map.1 hl
  split at hid
  next hkd =>
    rw [if_pos hkd]
    exact hpast
  next hkd => exact absurd hid hkd

theorem done_close_self : Done r c (s.close tables c.id) := by
  intro l hl hid
  exact absurd hid (by simpa using (List.mem_filter.1 hl).2)

theorem due_read (hup : s.world.down = false) {w : Sweep} (hw : s.sweep = some w) (hdue : c ∈ w.rest ∨ w.turn.On c) :
    Due c (s.sweepRead w) := by
  obtain ⟨rest, turn⟩ := w
  cases turn with
  | session d =>
      refine ⟨_, rfl, hdue.imp_right fun hd => ?_⟩
      obtain rfl : d = c := hd
      dsimp only [World.findSessionUserId]
      split_ifs
      · rfl
      · cases hup.symm.trans ‹_›
      · rfl
  | teams d =>
      refine ⟨_, rfl, hdue.imp_right fun hd => ?_⟩
      obtain rfl : d = c := hd
      rw [World.loadTeams, hup]
      rfl
  | next | sessionRead d answer | teamsRead d answer => exact ⟨_, hw, hdue⟩

theorem due_sweep (ht : Followed r c s) {w : Sweep} (hw : s.sweep = some w) (hdue : c ∈ w.rest ∨ w.turn.On c) :
    Due c (s.refreshAll tables w) ∨ Done r c (s.refreshAll tables w) := by
  have hturn := ht.fresh w hw
  obtain ⟨rest, turn⟩ := w
  have hgo : ∀ t : Live, c ∈ rest → Due c (t.goOn rest) := fun t hc => ⟨_, rfl, Or.inl hc⟩
  cases turn with
  | next =>
      cases rest with
      | nil => rcases hdue with hdue | hdue <;> cases hdue
      | cons d rest =>
          refine Or.inl ⟨_, rfl, ?_⟩
          rcases List.mem_cons.1 (hdue.resolve_right fun h => h) with rfl | hc
          · exact Or.inr rfl
          · exact Or.inl hc
  | session d | teams d => exact Or.inl ⟨_, hw, hdue⟩
  | sessionRead d answer =>
      cases answer with
      | none => exact Or.inl (hgo _ (hdue.resolve_right fun h => h))
      | some user =>
          cases user with
          | none =>
              rcases hdue with hc | hd
              · exact Or.inl (hgo _ hc)
              · obtain rfl : d = c := hd
                exact Or.inr (@done_close_self tables r d s)
          | some user => exact Or.inl ⟨_, rfl, hdue⟩
  | teamsRead d answer =>
      cases answer with
      | none => exact Or.inl (hgo _ (hdue.resolve_right fun h => h))
      | some given =>
          rcases hdue with hc | hd
          · exact Or.inl (hgo _ hc)
          · obtain rfl : d = c := hd
            exact Or.inr (@done_refresh_self tables r d s given (hturn rfl))

theorem due_step (hup : s.world.down = false) (ht : Followed r c s) (h : Due c s) (a : LiveAction) :
    Due c (s.step tables a) ∨ Done r c (s.step tables a) := by
  obtain ⟨v, hv, hdue⟩ := id h
  have hturns := @turns_step tables s a
  generalize s.step tables a = t at hturns ⊢
  cases hturns with
  | world w => exact Or.inl h
  | quiet _ _ hsweep | acts _ _ _ _ hsweep =>
      apply Or.inl
      rwa [Due, hsweep]
  | ticks hidle => cases hidle.symm.trans hv
  | reads hw =>
      obtain rfl := Option.some.inj (hw.symm.trans hv)
      exact Or.inl (due_read hup hv hdue)
  | sweeps hw =>
      obtain rfl := Option.some.inj (hw.symm.trans hv)
      exact due_sweep ht hv hdue

/-! ### Runs -/

def runLive (tables : Tables) (s : Live) (as : List LiveAction) : Live := run (Live.step tables) s as

/-- The database is so at the start of the run, and whatever changes in it. -/
def Throughout (p : World → Prop) (s : Live) (as : List LiveAction) : Prop := p s.world ∧ ∀ w, .world w ∈ as → p w

theorem world_step (s : Live) (a : LiveAction) : (s.step tables a).world = s.world ∨ a = .world (s.step tables a).world := by
  have hturns := @turns_step tables s a
  generalize s.step tables a = t at hturns ⊢
  cases hturns with
  | world w => exact Or.inr rfl
  | quiet hworld _ _ | acts _ _ hworld _ _ => exact Or.inl hworld
  | ticks h => exact Or.inl rfl
  | reads hw =>
      rw [Live.sweepRead]
      split <;> exact Or.inl rfl
  | sweeps hw =>
      rw [Live.refreshAll]
      split <;> exact Or.inl rfl

theorem Throughout.tail {p : World → Prop} {a : LiveAction} {as : List LiveAction} (tables : Tables)
    (h : Throughout p s (a :: as)) : Throughout p (s.step tables a) as := by
  refine ⟨?_, fun w hw => h.2 w (List.mem_cons_of_mem _ hw)⟩
  rcases world_step s a with hw | hw
  · exact hw ▸ h.1
  · exact h.2 _ (hw ▸ List.mem_cons_self)

theorem Throughout.last {p : World → Prop} {as : List LiveAction} (h : Throughout p s as) : p (runLive tables s as).world := by
  induction as generalizing s with
  | nil => exact h.1
  | cons a as ih => exact ih (h.tail tables)

theorem followed_run {as : List LiveAction} (ht : Followed r c s) (hw : Throughout (r.In c) s as) :
    Followed r c (runLive tables s as) := by
  induction as generalizing s with
  | nil => exact ht
  | cons a as ih => exact ih (ht.step tables hw.1 a) (hw.tail tables)

theorem due_run {as : List LiveAction} (ht : Followed r c s) (h : Due c s ∨ Done r c s)
    (hw : Throughout (fun w => r.In c w ∧ w.down = false) s as) :
    Due c (runLive tables s as) ∨ Done r c (runLive tables s as) := by
  induction as generalizing s with
  | nil => exact h
  | cons a as ih =>
      refine ih (ht.step tables hw.1.1 a) ?_ (hw.tail tables)
      rcases h with h | h
      · exact due_step hw.1.2 ht h a
      · exact Or.inr (done_step ht h a)

/-! ### What is sent -/

theorem sent_act (u : State) (a : Action) :
    ∃ new, (Events.step tables u a).sent = u.sent ++ new ∧ ∀ d ∈ new, d.1 ∈ u.clients := by
  have hnone : ∃ new, u.sent = u.sent ++ new ∧ ∀ d ∈ new, d.1 ∈ u.clients :=
    ⟨[], (List.append_nil _).symm, fun d hd => by cases hd⟩
  have hsend : ∀ (route : Route) (owner : Option String) (m : Message), ∃ new, (u.send route owner m).sent = u.sent ++ new ∧
      ∀ d ∈ new, d.1 ∈ u.clients := by
    refine fun route owner m => ⟨_, rfl, fun d hd => ?_⟩
    obtain ⟨l, hl, rfl⟩ := List.mem_map.1 hd
    exact (List.mem_filter.1 hl).1
  cases a with
  | publish m now =>
      rw [Events.step]
      split
      · exact hnone
      · rw [dispatch]
        split
        · exact hnone
        · split
          · exact hnone
          · split
            · exact hnone
            · exact hsend _ _ _
  | resolve m now =>
      rw [Events.step]
      split <;> exact hnone
  | deliver m =>
      rw [Events.step]
      split
      · exact hsend _ _ _
      · exact hnone
  | connect id given =>
      rw [Events.step]
      split <;> exact hnone
  | fail | disconnect | refresh => exact hnone

/-- The stream goes its own way, or a step of its own. -/
theorem stream_step (s : Live) (a : LiveAction) :
    (s.step tables a).stream = s.stream ∨ ∃ b, (s.step tables a).stream = Events.step tables s.stream b := by
  have hturns := @turns_step tables s a
  generalize s.step tables a = t at hturns ⊢
  cases hturns with
  | world w => exact Or.inl rfl
  | quiet _ hstream _ => exact Or.inl hstream
  | acts b _ _ hstream _ => exact Or.inr ⟨b, hstream⟩
  | ticks h => exact Or.inl rfl
  | reads hw =>
      rw [Live.sweepRead]
      split <;> exact Or.inl rfl
  | sweeps hw =>
      rw [Live.refreshAll]
      split
      · exact Or.inl rfl
      · exact Or.inl rfl
      · exact Or.inl rfl
      next _ d _ => exact Or.inr ⟨.disconnect d.id, rfl⟩
      · exact Or.inl rfl
      · exact Or.inl rfl
      next _ d given _ => exact Or.inr ⟨.refresh d.id given, rfl⟩
      · exact Or.inl rfl

theorem inv_live {s : Live} (h : Inv tables s.stream) (a : LiveAction) : Inv tables (s.step tables a).stream := by
  rcases stream_step s a with hs | ⟨b, hs⟩
  · rwa [hs]
  · rw [hs]
    exact inv_step h b

/-- A socket that is done is not sent what was revoked. -/
theorem sent_step (hi : Inv tables s.stream) (h : Done r c s) (a : LiveAction) :
    ∃ new, (s.step tables a).stream.sent = s.stream.sent ++ new ∧
      ∀ d ∈ new, d.1.id = c.id → ¬ r.Covers tables d.2.event := by
  rcases stream_step s a with hs | ⟨b, hs⟩
  · exact ⟨[], by rw [hs, List.append_nil], fun d hd => by cases hd⟩
  · obtain ⟨new, hsent, hnew⟩ := sent_act s.stream b
    refine ⟨new, by rw [hs, hsent], fun d hd hid hcovers => ?_⟩
    have hpast := h d.1 (hnew d hd) hid
    have hentitled := (inv_step hi b).sent d (hsent ▸ List.mem_append_right _ hd)
    cases r with
    | session => exact hpast
    | membership teamId =>
        have hall : routeEvent d.2.event ≠ some .all := by
          intro hroute
          rw [Revocation.Covers, teamOf, hroute] at hcovers
          cases hcovers
        obtain ⟨u, hu, hteam⟩ := (entitled_iff_teamOf hall).1 hentitled
        exact hpast (Option.some.inj (hteam.symm.trans hcovers) ▸ hu)

theorem sent_run {as : List LiveAction} (hi : Inv tables s.stream) (ht : Followed r c s) (h : Done r c s)
    (hw : Throughout (r.In c) s as) :
    ∃ new, (runLive tables s as).stream.sent = s.stream.sent ++ new ∧
      ∀ d ∈ new, d.1.id = c.id → ¬ r.Covers tables d.2.event := by
  induction as generalizing s with
  | nil => exact ⟨[], (List.append_nil _).symm, fun d hd => by cases hd⟩
  | cons a as ih =>
      obtain ⟨new, hsent, hnew⟩ := sent_step hi h a
      obtain ⟨more, hmore, hmore'⟩ := ih (inv_live hi a) (ht.step tables hw.1 a) (done_step ht h a) (hw.tail tables)
      refine ⟨new ++ more, hmore.trans (by rw [hsent, List.append_assoc]), fun d hd => ?_⟩
      rcases List.mem_append.1 hd with hd | hd
      · exact hnew d hd
      · exact hmore' d hd

theorem sane_run (tables : Tables) (world : World) (as : List LiveAction) : Sane (runLive tables (.start world) as) := by
  have h : Along (Live.step tables) (fun _ _ => True) (.start world) as := along_true _ as
  exact along_invariant (I := Sane) (fun s a hs _ => hs.grows (grows_step s a)) (sane_start world) h

theorem inv_runLive (tables : Tables) (world : World) (as : List LiveAction) :
    Inv tables (runLive tables (.start world) as).stream := by
  have h : Along (Live.step tables) (fun _ _ => True) (.start world) as := along_true _ as
  exact along_invariant (I := fun s => Inv tables s.stream) (fun s a hs _ => inv_live hs a) inv_empty h

/-- Once a sweep that started after a revocation is over, and could read, the socket is sent nothing more of what was
revoked; meanwhile, the sockets of the other upgrades and the events may do as they like. -/
theorem revoked_unheard (tables : Tables) (world : World) (r : Revocation) (c : Conn) (earlier during later : List LiveAction)
    (hc : c ∈ (runLive tables (.start world) earlier).conns) (hidle : (runLive tables (.start world) earlier).sweep = none)
    (hduring : Throughout (fun w => r.In c w ∧ w.down = false) (runLive tables (.start world) earlier) (.tick :: during))
    (hover : (runLive tables (.start world) (earlier ++ .tick :: during)).sweep = none)
    (hlater : ∀ w, .world w ∈ later → r.In c w) :
    ∃ new, (runLive tables (.start world) (earlier ++ .tick :: during ++ later)).stream.sent =
        (runLive tables (.start world) (earlier ++ .tick :: during)).stream.sent ++ new ∧
      ∀ d ∈ new, d.1.id = c.id → ¬ r.Covers tables d.2.event := by
  have hsane := sane_run tables world earlier
  have hmid : runLive tables (.start world) (earlier ++ .tick :: during) =
      runLive tables ((runLive tables (.start world) earlier).step tables .tick) during := List.foldl_append
  have hend : runLive tables (.start world) (earlier ++ .tick :: during ++ later) =
      runLive tables (runLive tables (.start world) (earlier ++ .tick :: during)) later := List.foldl_append
  have hti : Followed r c (runLive tables (.start world) earlier) :=
    ⟨hsane.once (Or.inl hc), fun w hw => by cases hidle.symm.trans hw⟩
  have ht := hti.step tables hduring.1.1 .tick
  have hdue : Due c ((runLive tables (.start world) earlier).step tables .tick) := by
    rw [Live.step, hidle]
    exact ⟨_, rfl, Or.inl hc⟩
  have hwhile := hduring.tail tables
  have hin : Throughout (r.In c) ((runLive tables (.start world) earlier).step tables .tick) during :=
    ⟨hwhile.1.1, fun w hw => (hwhile.2 w hw).1⟩
  have hdone : Done r c (runLive tables (.start world) (earlier ++ .tick :: during)) := by
    rw [hmid] at hover ⊢
    refine (due_run ht (Or.inl hdue) hwhile).resolve_left ?_
    rintro ⟨w, hw, -⟩
    cases hover.symm.trans hw
  rw [hend]
  refine sent_run (inv_runLive tables world _) ?_ hdone ⟨?_, hlater⟩
  · rw [hmid]
    exact followed_run ht hin
  · rw [hmid]
    exact hin.last

theorem revoked_unheard_session :
    ∃ new, (runLive ⟨fun _ => none, fun _ => none, fun _ => none, fun _ => none, fun _ => none, fun _ => none⟩
          (.start ⟨fun _ => some "user", fun _ => ["team"], false⟩)
          ([.request "session", .upgradeRead 0, .upgrade 0, .upgradeRead 0, .upgrade 0, .world ⟨fun _ => none, fun _ => ["team"], false⟩] ++
            .tick :: [.sweep, .sweepRead, .sweep, .sweep] ++ [.tick])).stream.sent =
        (runLive ⟨fun _ => none, fun _ => none, fun _ => none, fun _ => none, fun _ => none, fun _ => none⟩
          (.start ⟨fun _ => some "user", fun _ => ["team"], false⟩)
          ([.request "session", .upgradeRead 0, .upgrade 0, .upgradeRead 0, .upgrade 0, .world ⟨fun _ => none, fun _ => ["team"], false⟩] ++
            .tick :: [.sweep, .sweepRead, .sweep, .sweep])).stream.sent ++ new ∧
      ∀ d ∈ new, d.1.id = 0 → ¬ Revocation.session.Covers
        ⟨fun _ => none, fun _ => none, fun _ => none, fun _ => none, fun _ => none, fun _ => none⟩ d.2.event :=
  revoked_unheard _ _ .session ⟨0, "session", "user"⟩ _ _ _ List.mem_cons_self rfl
    ⟨⟨rfl, rfl⟩, fun w hw => by simp at hw⟩ rfl fun w hw => by simp at hw

end Socket

end Service

end Yeah.Events
