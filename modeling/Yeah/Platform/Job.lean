import Yeah.Attempt
import Yeah.Platform.Operations
import Mathlib.Data.List.Infix

namespace Yeah.Platform

/-- The row of an operation; times are in milliseconds. -/
structure Row where
  kind : Kind
  status : Status
  startedAt : Option Nat
  log : List Char
  deriving DecidableEq

/-- The row of the operation and the jobs that wait for it. -/
structure World where
  row : Row
  waiting : Nat
  deriving DecidableEq

/-- What a command over SSH exits with, its chunks, and the text that the appends nobody awaits have left
in the row. -/
structure Output where
  exitCode : Nat
  chunks : List (List Char)
  landed : List Char

/-- What one job meets: the error of each call, or what it gives. -/
structure Answers where
  now : Nat
  selectOperation : Option String
  setRunning : Option String
  publishRunning : Option String
  /-- Whether a server is marked as the platform host. -/
  selectHost : Except String Bool
  connect : Option String
  exec : Except String Output
  selectLog : Option String
  append : Option String
  publishLog : Option String
  finish : Option String
  publishStatus : Option String
  add : Option String
  /-- The calls of the `catch`. -/
  appendFailure : Option String
  publishFailure : Option String
  finishFailure : Option String
  publishFailed : Option String

def POLL_DELAY_MS : Nat := 5000

def LAUNCH_TIMEOUT_MS : Nat := 15 * 60 * 1000

def OK_MARKER : List Char := "===YEAH_OP_OK===".toList

def FAIL_MARKER : List Char := "===YEAH_OP_FAILED===".toList

def LAUNCHED : List Char := "LAUNCHED".toList

namespace World

variable (w : World)

def setStatus (status : Status) : World := { w with row := { w.row with status := status } }

def setRunning (now : Nat) : World :=
  { w with row := { w.row with status := .running, startedAt := some now } }

def extend (chunk : List Char) : World := { w with row := { w.row with log := w.row.log ++ chunk } }

def enqueue : World := { w with waiting := w.waiting + 1 }

end World

def appendLog (update publish : Option String) (chunk : List Char) (w : World) : Attempt World :=
  if chunk = [] then .done w else (Attempt.await update (·.extend chunk) w).andThen (Attempt.await publish id)

def finish (update publish : Option String) (status : Status) (w : World) : Attempt World :=
  (Attempt.await update (·.setStatus status) w).andThen (Attempt.await publish id)

/-- The error text, or a connection. -/
def connectToPlatformHost (x : Answers) : Except String (Option String) :=
  match x.selectHost, x.connect with
  | .error m, _ => .error m
  | .ok false, _ => .ok (some "no server is marked as the platform host (installation without the automatic install.sh setup)")
  | .ok true, some m => .ok (some m)
  | .ok true, none => .ok none

/-- A line in the log and the status of the end. -/
def report (x : Answers) (status : Status) (line : String) (w : World) : Attempt World :=
  (appendLog x.append x.publishLog line.toList w).andThen (finish x.finish x.publishStatus status)

/-- The same in a `catch`. -/
def reportFailure (x : Answers) (line : String) (w : World) : Attempt World :=
  (appendLog x.appendFailure x.publishFailure line.toList w).andThen (finish x.finishFailure x.publishFailed .failed)

def start (x : Answers) (w : World) : Attempt World :=
  (Attempt.await x.setRunning (·.setRunning x.now) w).andThen (Attempt.await x.publishRunning id)

def runSystemUpdate (x : Answers) (w : World) : Attempt World :=
  (start x w).andThen fun w =>
    match connectToPlatformHost x with
    | .error m => .threw m w
    | .ok (some m) => report x .failed s!"\nfalha: {m}\n" w
    | .ok none =>
        Attempt.rescue
          (match x.exec with
            | .error m => .threw m w
            | .ok out =>
                finish x.finish x.publishStatus (if out.exitCode = 0 then .success else .failed) (w.extend out.landed))
          fun m w => reportFailure x s!"\nfalha: {m}\n" w

def Output.launched (out : Output) : Bool := out.chunks.any fun chunk => LAUNCHED <:+: chunk

def launchPlatformUpdate (x : Answers) (w : World) : Attempt World :=
  match connectToPlatformHost x with
  | .error m => .threw m w
  | .ok (some m) => report x .failed s!"\nfalha: {m}\n" w
  | .ok none =>
      Attempt.rescue
        (match x.exec with
          | .error m => .threw m w
          | .ok out =>
              if out.exitCode ≠ 0 ∨ out.launched = false then
                report x .failed "\ncould not start the update in the background\n" (w.extend out.landed)
              else (start x (w.extend out.landed)).andThen (Attempt.await x.add World.enqueue))
        fun m w => reportFailure x s!"\nfailed to start: {m}\n" w

def timedOut (now : Nat) (startedAt : Option Nat) : Bool :=
  match startedAt with
  | some t => LAUNCH_TIMEOUT_MS < now - t
  | none => false

/-- What a poll does once it has read the log on the host. -/
def settle (x : Answers) (remoteLog : List Char) (w : World) : Attempt World :=
  if OK_MARKER <:+: remoteLog then finish x.finish x.publishStatus .success w
  else if FAIL_MARKER <:+: remoteLog then finish x.finish x.publishStatus .failed w
  else Attempt.await x.add World.enqueue w

def pollPlatformUpdate (x : Answers) (w : World) : Attempt World :=
  if timedOut x.now w.row.startedAt then report x .failed "\ntimed out waiting for the update to finish\n" w
  else
    match connectToPlatformHost x with
    | .error m => .threw m w
    | .ok (some _) => Attempt.await x.add World.enqueue w
    | .ok none =>
        match x.exec with
        | .error m => .threw m w
        | .ok out =>
            let remoteLog := out.chunks.flatten
            (Attempt.await x.selectLog id w).andThen fun w =>
              (if w.row.log.length < remoteLog.length then appendLog x.append x.publishLog (remoteLog.drop w.row.log.length) w
                else .done w).andThen (settle x remoteLog)

def platformOperation (x : Answers) (w : World) : Attempt World :=
  (Attempt.await x.selectOperation id w).andThen fun w =>
    match w.row.kind, w.row.status with
    | .systemUpdate, _ => runSystemUpdate x w
    | .platformUpdate, .queued => launchPlatformUpdate x w
    | .platformUpdate, .running => pollPlatformUpdate x w
    | .platformUpdate, _ => .done w

/-- The worker takes a waiting job and ends it. -/
def runJob (w : World) (x : Answers) : World :=
  if w.waiting = 0 then w else (platformOperation x { w with waiting := w.waiting - 1 }).state

end Yeah.Platform
