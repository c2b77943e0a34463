import Yeah.Attempt
import Yeah.Text.Space

namespace Yeah.Provision

open Text

inductive ContainerState
  | created
  | running
  | restarting
  | paused
  | exited
  | dead
  deriving DecidableEq

/-- The word of `docker ps` for a state. -/
def ContainerState.word : ContainerState → String
  | created => "created"
  | running => "running"
  | restarting => "restarting"
  | paused => "paused"
  | exited => "exited"
  | dead => "dead"

/-- A container; a new one gets a new id. -/
structure Container where
  id : String
  name : String
  /-- Its compose service. -/
  service : String
  state : ContainerState
  plain : ∀ c ∈ name.toList, isSpace c.toNat = false ∧ c ≠ '|'
  deriving DecidableEq

inductive Status
  | idle
  | provisioning
  | running
  | stopped
  | error
  deriving DecidableEq

inductive Action
  | deploy
  | start
  | stop
  | restart
  deriving DecidableEq

/-- What a job runs on the server. -/
inductive Command
  | mkdir
  | stackDirs
  | chmod (path : String)
  | ensureNetwork
  | pull
  | up
  | state
  | join
  /-- `docker start`, `stop` or `restart` of every container of the project; without one it fails. -/
  | lifecycle (action : Action)
  /-- `docker rm -f … || true && docker run …` -/
  | replace
  deriving DecidableEq

/-- The commands that touch no container. -/
def Command.still : Command → Bool
  | up | lifecycle _ | replace => false
  | _ => true

/-- One `name|state` line per container. -/
def listing (containers : List Container) : List Char :=
  containers.flatMap fun c => s!"{c.name}|{c.state.word}\n".toList

def ids (containers : List Container) : List String := containers.map (·.id)

def AllRun (containers : List Container) : Prop := containers ≠ [] ∧ ∀ c ∈ containers, c.state = .running

/-- The server, its docker taken at its documented word: a command that exits 0 has done what it is for. -/
structure Host where
  /-- The exit code and the containers of the service after a command, or the error of the channel. -/
  exec : Command → List Container → Except String (Nat × List Container)
  write : String → Option String
  /-- The services that `docker compose up` starts. -/
  services : List String
  still : ∀ c l n l', c.still = true → exec c l = .ok (n, l') → l' = l
  start : ∀ l l', exec (.lifecycle .start) l = .ok (0, l') → ids l' = ids l ∧ AllRun l'
  restart : ∀ l l', exec (.lifecycle .restart) l = .ok (0, l') → ids l' = ids l ∧ AllRun l'
  stop : ∀ l l', exec (.lifecycle .stop) l = .ok (0, l') → ids l' = ids l ∧ ∀ c ∈ l', c.state ≠ .running ∧
    c.state ≠ .restarting
  replace : ∀ l l', exec .replace l = .ok (0, l') → AllRun l' ∧ ids l' ≠ ids l
  up : ∀ l l', exec .up l = .ok (0, l') → AllRun l' ∧ ∀ s ∈ services, ∃ c ∈ l', c.service = s

structure StackFile where
  path : String
  executable : Bool

/-- The row of a service, as far as its job reads it. -/
structure Service where
  isStack : Bool
  stackFiles : Option (List StackFile)

/-- The errors of the calls of one job. -/
structure Answers where
  selectService : Option String
  selectServer : Except String Bool
  connect : Option String
  /-- The message of a compose file that cannot be used. -/
  parse : Option String
  setStatus : Option String
  publish : Option String
  setError : Option String
  publishError : Option String

/-- The containers of the service, the status of its row, and whether the job has set that to `error`. -/
structure World where
  containers : List Container
  status : Status
  failed : Bool

def stateOf (l : List Char) : Option (List Char) :=
  ((strip (fun c => isSpace c.toNat) l).splitOn '|')[1]?.filter (· ≠ [])

def everyContainerUp (stateOutput : List Char) : Bool :=
  let states := (stateOutput.splitOn '\n').filterMap stateOf
  states ≠ [] ∧ ∀ s ∈ states, s = "running".toList ∨ s = "restarting".toList

variable (H : Host) (x : Answers)

/-- A command whose exit code must be 0. -/
def run (c : Command) (w : World) : Attempt World :=
  match H.exec c w.containers with
  | .error m => .threw m w
  | .ok (0, l) => .done { w with containers := l }
  | .ok (n + 1, l) => .threw s!"exited with code {n + 1}" { w with containers := l }

def writeFile (path : String) (w : World) : Attempt World := Attempt.await (H.write path) id w

def setStatus (status : Status) (w : World) : Attempt World :=
  (Attempt.await x.setStatus (fun w => { w with status := status }) w).andThen (Attempt.await x.publish id)

def setError (w : World) : Attempt World :=
  (Attempt.await x.setError (fun w => { w with status := .error, failed := true }) w).andThen (Attempt.await x.publishError id)

def writeStackFiles : List StackFile → World → Attempt World
  | [], w => .done w
  | f :: fs, w =>
      ((writeFile H f.path w).andThen fun w => if f.executable then run H (.chmod f.path) w else .done w).andThen
        (writeStackFiles fs)

/-- The configuration files of a template. -/
def writeFiles (s : Service) (w : World) : Attempt World :=
  match s.stackFiles with
  | none => .done w
  | some files => (run H .stackDirs w).andThen (writeStackFiles H files)

/-- The start of the stack; where it fails, every container may still be up. -/
def startStack (w : World) : Attempt World :=
  (run H .up w).rescue fun upErr w =>
    match H.exec .state w.containers with
    | .error m => .threw m w
    | .ok _ => if everyContainerUp (listing w.containers) then .done w else .threw upErr w

def deployStack (s : Service) (w : World) : Attempt World :=
  (Attempt.await x.parse id w).andThen fun w =>
    (run H .mkdir w).andThen fun w =>
      (writeFile H "docker-compose.yml" w).andThen fun w =>
        (writeFile H ".env" w).andThen fun w =>
          (writeFiles H s w).andThen fun w =>
            (writeFile H "compose.yeah.override.yml" w).andThen fun w =>
              (run H .ensureNetwork w).andThen fun w =>
                (run H .pull w).andThen fun w =>
                  (startStack H w).andThen fun w => (run H .join w).andThen (setStatus x .running)

def provisionStack (s : Service) (action : Action) (w : World) : Attempt World :=
  ((Attempt.await x.connect id w).andThen fun w =>
    match action with
    | .deploy => deployStack H x s w
    | .stop => (run H (.lifecycle .stop) w).andThen (setStatus x .stopped)
    | task => (run H (.lifecycle task) w).andThen (setStatus x .running)).rescue fun _ => setError x

/-- A service of one container, whatever the action. -/
def provisionContainer (w : World) : Attempt World :=
  ((Attempt.await x.connect id w).andThen fun w =>
    (run H .mkdir w).andThen fun w =>
      (writeFile H ".env" w).andThen fun w => (run H .replace w).andThen (setStatus x .running)).rescue fun _ => setError x

def provisionService (s : Service) (action : Action) (w : World) : Attempt World :=
  (Attempt.await x.selectService id w).andThen fun w =>
    match x.selectServer with
    | .error m => .threw m w
    | .ok false => Attempt.await x.setError (fun w => { w with status := .error, failed := true }) w
    | .ok true => if s.isStack then provisionStack H x s action w else provisionContainer H x w

theorem ContainerState.word_plain (state : ContainerState) :
    ∀ c ∈ state.word.toList, isSpace c.toNat = false ∧ c ≠ '|' := by
  cases state <;> simp [ContainerState.word, isSpace]

def Container.line (c : Container) : List Char := c.name.toList ++ '|' :: c.state.word.toList

theorem Container.line_plain (c : Container) : ∀ d ∈ c.line, isSpace d.toNat = false := by
  intro d hd
  rcases List.mem_append.1 hd with hd | hd
  · exact (c.plain d hd).1
  · rcases List.mem_cons.1 hd with rfl | hd
    · rfl
    · exact (c.state.word_plain d hd).1

theorem newline_not_mem (c : Container) : '\n' ∉ c.line := by
  intro h
  have := c.line_plain _ h
  revert this
  decide

theorem splitOn_listing (containers : List Container) :
    (listing containers).splitOn '\n' = containers.map Container.line ++ [[]] := by
  induction containers with
  | nil => rfl
  | cons c cs ih =>
      have hcons : listing (c :: cs) = c.line ++ '\n' :: listing cs := by
        simp [listing, Container.line, toString]
      rw [hcons, List.splitOn_append_cons_self_of_not_mem (newline_not_mem c), ih]
      rfl

theorem stateOf_line (c : Container) : stateOf c.line = some c.state.word.toList := by
  have hname : '|' ∉ c.name.toList := fun h => (c.plain _ h).2 rfl
  have hword : '|' ∉ c.state.word.toList := fun h => (c.state.word_plain _ h).2 rfl
  rw [stateOf, strip_of_none c.line_plain, Container.line, List.splitOn_append_cons_self_of_not_mem hname,
    List.splitOn_eq_singleton hword]
  cases c.state <;> rfl

theorem stateOf_nil : stateOf [] = none := rfl

theorem everyContainerUp_listing (containers : List Container) :
    everyContainerUp (listing containers) = true ↔
      containers ≠ [] ∧ ∀ c ∈ containers, c.state = .running ∨ c.state = .restarting := by
  have hstates : ((listing containers).splitOn '\n').filterMap stateOf =
      containers.map (·.state.word.toList) := by
    rw [splitOn_listing, List.filterMap_append, List.filterMap_map, List.filterMap_cons_none stateOf_nil, List.filterMap_nil,
      List.append_nil, ← List.filterMap_eq_map]
    exact List.filterMap_congr fun c _ => stateOf_line c
  have hword : ∀ state : ContainerState, state.word.toList = "running".toList ∨
    state.word.toList = "restarting".toList ↔
      state = .running ∨ state = .restarting := by
    intro state
    cases state <;> decide
  unfold everyContainerUp
  dsimp only
  rw [hstates, decide_eq_true_eq, List.forall_mem_map]
  refine and_congr (not_congr List.map_eq_nil_iff) (forall₂_congr fun c _ => hword c.state)

end Yeah.Provision
