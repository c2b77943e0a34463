import Yeah.Runs
import Mathlib.Logic.Function.Basic

namespace Yeah.Waker

structure Cfg where
  container : String
  hosts : List String
  port : Nat
  idleSeconds : Nat
  maintenance : Option String
  deriving DecidableEq

/-- What the waker keeps of a container. -/
structure App where
  cfg : Cfg
  up : Bool
  checkedAt : Nat
  last : Nat
  inflight : Int
  /-- The wake-up that later callers share. -/
  waking : Option Nat
  deriving DecidableEq

inductive Phase
  /-- In `await ensureUp(state)`: on a wake-up, or on a promise that was resolved at once. -/
  | awaiting (wake : Option Nat)
  | forwarded (wake : Option Nat)
  | refused
  deriving DecidableEq

/-- A request or an upgraded connection that was admitted. -/
structure Request where
  app : Nat
  upgrade : Bool
  admittedAt : Nat
  phase : Phase
  /-- The `finished` of its `done`. -/
  finished : Bool
  /-- How often `close` was emitted, and how often the count was decremented. -/
  closes : Nat
  decrements : Nat
  /-- The stops of its container that were in progress when it was admitted. -/
  stops : List Nat
  deriving DecidableEq

def Request.isOpen (r : Request) : Bool := r.closes = 0

inductive Stage
  | inspecting
  | starting
  | connecting
  /-- The container was found running, or it was started and its port answered. -/
  | done (time : Nat)
  | failed
  deriving DecidableEq

def Stage.ended : Stage → Bool
  | .done _ | .failed => true
  | _ => false

/-- The asynchronous function in `ensureUp`. -/
structure Wake where
  app : Nat
  container : String
  stage : Stage
  /-- Its `finally` has run. -/
  settled : Bool
  number : Nat
  deriving DecidableEq

/-- A `POST …/stop` of a sweep, until the container has exited and until the answer is here. -/
structure Stop where
  app : Nat
  container : String
  number : Nat
  exited : Bool
  answered : Bool
  deriving DecidableEq

/-- A sweep with the time it began and the stop that it waits for. -/
structure Sweep where
  now : Nat
  stop : Option Nat
  deriving DecidableEq

/-- The waker and the containers of its server. Objects are never freed: an entry that `apps`
drops lives on in the requests and wake-ups that hold it. Calls of the docker API are numbered. -/
structure State where
  now : Nat
  lastLoad : Nat
  objects : List App
  apps : String → Option Nat
  hostIndex : String → Option Nat
  requests : List Request
  wakes : List Wake
  stops : List Stop
  sweeps : List Sweep
  running : String → Bool
  starts : List (String × Nat)
  number : Nat

/-- The values of the environment, and `toLowerCase`. -/
structure Settings where
  checkMs : Nat
  lower : String → String

namespace State

variable (s : State)

def modifyApp (o : Nat) (f : App → App) : State := { s with objects := s.objects.modify o f }

def modifyRequest (r : Nat) (f : Request → Request) : State :=
  { s with requests := s.requests.modify r f }

def modifyWake (w : Nat) (f : Wake → Wake) : State := { s with wakes := s.wakes.modify w f }

def setStage (w : Nat) (stage : Stage) : State := s.modifyWake w fun k => { k with stage := stage }

def keep (cfg : Cfg) : State :=
  match s.apps cfg.container with
  | some o => s.modifyApp o fun a => { a with cfg := cfg }
  | none =>
      { s with
        objects := s.objects ++ [⟨cfg, false, 0, s.now, 0, none⟩]
        apps := Function.update s.apps cfg.container (some s.objects.length) }

/-- What is done with an entry of a table, if it is there. -/
def onApp (o : Nat) (f : App → State) : State := (s.objects[o]?.map f).getD s

def onRequest (r : Nat) (f : Request → State) : State := (s.requests[r]?.map f).getD s

def onWake (w : Nat) (f : Wake → State) : State := (s.wakes[w]?.map f).getD s

def onStop (k : Nat) (f : Stop → State) : State := (s.stops[k]?.map f).getD s

/-- The stops of a container that are in progress. -/
def stopping (container : String) : List Nat :=
  (List.range s.stops.length).filter fun k =>
    (s.stops[k]?.map fun p => decide (p.container = container ∧ p.answered = false)).getD false

end State

variable (settings : Settings)

def loadFile (s : State) (file : Option Cfg) : State :=
  match file with
  | none => s
  | some cfg =>
      if cfg.port = 0 then s
      else
        let s := s.keep cfg
        { s with hostIndex := fun h => if h ∈ cfg.hosts.map settings.lower then s.apps cfg.container else s.hostIndex h }

def seen (files : List (Option Cfg)) : List String :=
  files.filterMap fun file => do
    let cfg ← file
    if cfg.port = 0 then none else some cfg.container

def loadConfig (files : List (Option Cfg)) (s : State) : State :=
  if s.now - s.lastLoad < 2000 then s
  else
    let s := files.foldl (loadFile settings) { s with lastLoad := s.now, hostIndex := fun _ => none }
    { s with apps := fun c => if c ∈ seen files then s.apps c else none }

/-- A check that is recent enough. -/
def App.fresh (a : App) (now : Nat) : Bool := a.up ∧ now - a.checkedAt < settings.checkMs

/-- Gives the promise that the caller awaits. -/
def ensureUp (o : Nat) (a : App) (s : State) : State × Option Nat :=
  if a.fresh settings s.now then (s, none)
  else
    match a.waking with
    | some w => (s, some w)
    | none =>
        let w := s.wakes.length
        ({ (s.modifyApp o fun a => { a with waking := some w }) with
            wakes := s.wakes ++ [⟨o, a.cfg.container, .inspecting, false, s.number⟩]
            number := s.number + 1 }, some w)

/-- The count is taken, and the handler runs into its `await`. -/
def accept (upgrade : Bool) (o : Nat) (a : App) (s : State) : State :=
  let s := s.modifyApp o fun a =>
    { a with inflight := a.inflight + 1, last := if upgrade then a.last else s.now }
  let r := ensureUp settings o a s
  { r.1 with
    requests := s.requests ++ [⟨o, upgrade, s.now, .awaiting r.2, false, 0, 0, s.stopping a.cfg.container⟩] }

/-- `String(req.headers.host || "").split(":")[0].toLowerCase()` -/
def hostKey (header : String) : String :=
  settings.lower (String.ofList ((header.toList.splitOn ':').headD []))

/-- The handlers of requests and upgrades, up to their `await`. -/
def handle (upgrade : Bool) (header : String) (files : List (Option Cfg)) (s : State) : State :=
  let s := loadConfig settings files s
  match s.hostIndex (hostKey settings header) with
  | none => s
  | some o => s.onApp o fun a => if a.cfg.maintenance.isSome then s else accept settings upgrade o a s

def close (r : Nat) (q : Request) (s : State) : State :=
  if q.finished then s.modifyRequest r fun q => { q with closes := q.closes + 1 }
  else
    (s.modifyRequest r fun q =>
      { q with finished := true, closes := q.closes + 1, decrements := q.decrements + 1 }).modifyApp q.app fun a =>
        { a with inflight := a.inflight - 1, last := s.now }

/-- What follows `await ensureUp(state)`. -/
def resume (r : Nat) (q : Request) (s : State) : State :=
  match q.phase with
  | .awaiting none => s.modifyRequest r fun q => { q with phase := .forwarded none }
  | .awaiting (some w) =>
      s.onWake w fun k =>
        match k.stage with
        | .done _ => s.modifyRequest r fun q => { q with phase := .forwarded (some w) }
        | .failed =>
            let s := s.modifyRequest r fun q => { q with phase := .refused }
            if q.upgrade then s else s.modifyApp q.app fun a => { a with up := false }
        | _ => s
  | _ => s

/-- The wake-up has found or made the container run. -/
def succeed (w : Nat) (k : Wake) (s : State) : State :=
  (s.setStage w (.done s.now)).modifyApp k.app fun a => { a with up := true, checkedAt := s.now }

/-- Docker starts a container. -/
def start (container : String) (s : State) : State :=
  { s with
    running := Function.update s.running container true
    starts := (container, s.number) :: s.starts
    number := s.number + 1 }

def inspect (w : Nat) (k : Wake) (found : Bool) (s : State) : State :=
  if k.stage ≠ .inspecting then s
  else if found = false then s.setStage w .failed
  else if s.running k.container then succeed w k s
  else s.setStage w .starting

/-- Docker handles `POST …/start`. -/
def boot (w : Nat) (k : Wake) (success : Bool) (s : State) : State :=
  if k.stage ≠ .starting then s
  else if success then start k.container (s.setStage w .connecting)
  else s.setStage w .failed

def connect (w : Nat) (k : Wake) (success : Bool) (s : State) : State :=
  if k.stage ≠ .connecting then s
  else if success then succeed w k s
  else s.setStage w .failed

/-- `state.waking = null` -/
def settle (w : Nat) (k : Wake) (s : State) : State :=
  if k.stage.ended = true ∧ k.settled = false then
    (s.modifyWake w fun k => { k with settled := true }).modifyApp k.app fun a => { a with waking := none }
  else s

def upstreamError (q : Request) (s : State) : State :=
  match q.phase with
  | .forwarded _ => if q.upgrade then s else s.modifyApp q.app fun a => { a with up := false }
  | _ => s

/-- The sweep comes to a container. -/
def visit (k : Nat) (p : Sweep) (o : Nat) (a : App) (s : State) : State :=
  if a.up = false ∨ a.waking.isSome ∨ 0 < a.inflight then s
  else if a.cfg.idleSeconds = 0 then s
  else if p.now - a.last < a.cfg.idleSeconds * 1000 then s
  else
    { s with
      stops := s.stops ++ [⟨o, a.cfg.container, s.number, false, false⟩]
      sweeps := s.sweeps.modify k fun p => { p with stop := some s.stops.length }
      number := s.number + 1 }

def sweep (files : List (Option Cfg)) (s : State) : State :=
  let s := loadConfig settings files s
  { s with sweeps := s.sweeps ++ [⟨s.now, none⟩] }

def exit (k : Nat) (p : Stop) (s : State) : State :=
  { s with
    running := Function.update s.running p.container false
    stops := s.stops.modify k fun p => { p with exited := true } }

/-- The answer to `POST …/stop`, or an error instead of it. -/
def answer (k : Nat) (p : Stop) (success : Bool) (s : State) : State :=
  let s := { s with
    stops := s.stops.modify k fun p => { p with answered := true }
    sweeps := s.sweeps.map fun q => if q.stop = some k then { q with stop := none } else q }
  if success then s.modifyApp p.app fun a => { a with up := false } else s

inductive Event
  | tick (ms : Nat)
  | handle (upgrade : Bool) (header : String) (files : List (Option Cfg))
  | inspected (w : Nat) (found : Bool)
  | started (w : Nat) (success : Bool)
  | connected (w : Nat) (success : Bool)
  | settled (w : Nat)
  | resumed (r : Nat)
  | upstreamError (r : Nat)
  /-- The client goes away; the upstream is destroyed. -/
  | aborted (r : Nat)
  | close (r : Nat)
  | sweep (files : List (Option Cfg))
  | visit (k : Nat) (container : String)
  | exited (k : Nat)
  | stopped (k : Nat) (success : Bool)
  /-- Somebody else starts the container, or it ends. -/
  | external (container : String) (running : Bool)

def step (s : State) : Event → State
  | .tick ms => { s with now := s.now + ms }
  | .handle upgrade header files => handle settings upgrade header files s
  | .inspected w found => s.onWake w fun k => inspect w k found s
  | .started w success => s.onWake w fun k => boot w k success s
  | .connected w success => s.onWake w fun k => connect w k success s
  | .settled w => s.onWake w fun k => settle w k s
  | .resumed r => s.onRequest r fun q => resume r q s
  | .upstreamError r => s.onRequest r fun q => upstreamError q s
  | .aborted _ => s
  | .close r => s.onRequest r fun q => close r q s
  | .sweep files => sweep settings files s
  | .visit k container =>
      match s.sweeps[k]?, s.apps container with
      | some p, some o => if p.stop.isSome then s else s.onApp o fun a => visit k p o a s
      | _, _ => s
  | .exited k => s.onStop k fun p => exit k p s
  | .stopped k success => s.onStop k fun p => answer k p success s
  | .external container true => start container s
  | .external container false => { s with running := Function.update s.running container false }

/-- A waker as its module leaves it: no configuration, no request. -/
def State.empty (now : Nat) (running : String → Bool) : State :=
  ⟨now, 0, [], fun _ => none, fun _ => none, [], [], [], [], running, [], 0⟩

/-- The start of the process. It takes every container to be running. -/
def main (now : Nat) (running : String → Bool) (files : List (Option Cfg)) : State :=
  let s := loadConfig settings files (.empty now running)
  { s with objects := s.objects.map fun a => { a with up := true } }

end Yeah.Waker
