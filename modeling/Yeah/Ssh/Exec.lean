import Yeah.Runs
import Yeah.Text.Space

namespace Yeah.Ssh

open Runs

/-- How the server says that the remote process ended. -/
inductive Ending
  | status (n : Nat)
  | signal (name : String)
  deriving DecidableEq

inductive Stream
  | stdout
  | stderr
  deriving DecidableEq

/-- What can happen around an open exec channel. A dropped connection is a `close`
with no `exit` before it; the last three come from the stream that is written. -/
inductive Event
  | data (stream : Stream) (chunk : String)
  | exit (how : Ending)
  | error (message : String)
  | close
  | drain
  | chunk (bytes : String) (room : Bool)
  | sourceEnd
  | sourceError (message : String)

inductive Outcome (α : Type)
  | resolved (a : α)
  | rejected (message : String)
  | uncaught (message : String)
  deriving DecidableEq

/-- A channel and the promise made for it: what the server has reported, whether
events still arrive, and how the promise settled. -/
structure Channel (α : Type) where
  ending : Option Ending
  closed : Bool
  outcome : Option (Outcome α)

namespace Channel

variable {α : Type}

def opened (refused : Option String) : Channel α :=
  match refused with
  | none => ⟨none, false, none⟩
  | some m => ⟨none, true, some (.rejected m)⟩

def report (c : Channel α) (how : Ending) : Channel α := { c with ending := some how }

def settle (c : Channel α) (o : Outcome α) : Channel α := { c with closed := true, outcome := some o }

def code (c : Channel α) : Option Nat :=
  match c.ending with
  | some (.status n) => some n
  | _ => none

/-- Success is reported only of a process that ended with status 0. -/
def Honest (ok : α) (c : Channel α) : Prop :=
  c.outcome = some (.resolved ok) → c.ending = some (.status 0)

def HasStatus (c : Channel α) : Prop := ∃ n, c.ending = some (.status n)

/-- The channel does not close before the server said with which status the process ended. -/
def ClosesWithStatus (c : Channel α) (e : Event) : Prop := e = .close → c.closed = false → c.HasStatus

def Sound (ok : α) (c : Channel α) : Prop := (c.closed = false → c.outcome = none) ∧ c.Honest ok

theorem code_of_ending {c : Channel α} {n : Nat} (h : c.ending = some (.status n)) : c.code = some n := by
  simp [code, h]

theorem code_none {c : Channel α} (h : ¬ c.HasStatus) : c.code = none := by
  simp only [code]
  split
  · rename_i n hn
    exact absurd ⟨n, hn⟩ h
  · rfl

theorem sound_opened (ok : α) (refused : Option String) : (opened refused).Sound ok := by
  cases refused with
  | none => exact ⟨fun _ => rfl, fun h => by cases h⟩
  | some m => exact ⟨fun h => absurd h (by simp [opened]), fun h => by cases h⟩

theorem Sound.report {ok : α} {c : Channel α} (h : c.Sound ok) (hc : c.closed = false) (how : Ending) :
    (c.report how).Sound ok := by
  refine ⟨h.1, fun ho => ?_⟩
  rw [Channel.report, h.1 hc] at ho
  cases ho

theorem sound_settle {ok : α} {c : Channel α} {o : Outcome α}
    (h : o = .resolved ok → c.ending = some (.status 0)) : (c.settle o).Sound ok :=
  ⟨fun hc => absurd hc (by simp [settle]), fun ho => h (Option.some.inj ho)⟩

section Reader

variable {σ : Type} {step : σ → Event → σ} {ok : α} (channel : σ → Channel α)

/-- A promise that listens to a channel until it closes, keeps it sound, and takes a
missing exit status for success, is honest exactly when no status is missing. -/
theorem honest_iff_closesWithStatus
    (hclosed : ∀ s e, (channel s).closed = true → step s e = s)
    (hclose : ∀ s, (channel s).closed = false → ¬ (channel s).HasStatus →
      channel (step s .close) = (channel s).settle (.resolved ok))
    (hsound : ∀ s e, (channel s).Sound ok → (channel s).ClosesWithStatus e → (channel (step s e)).Sound ok)
    {s : σ} (hs : (channel s).Sound ok) (es : List Event) :
    (channel (run step s es)).Honest ok ↔
        Along step (fun s e => (channel s).ClosesWithStatus e) s es := by
  constructor
  · intro h
    refine along_of_run (G := fun s => (channel s).closed = true → (channel s).Honest ok) ?_ ?_ fun _ => h
    · intro s e hn
      rw [Classical.not_imp] at hn
      rw [hclosed s e hn.1, Classical.not_imp]
      exact hn
    · intro s e hn hg
      simp only [ClosesWithStatus, Classical.not_imp] at hn
      obtain ⟨rfl, hc, hn⟩ := hn
      rw [hclose s hc hn] at hg
      exact hn ⟨0, hg rfl rfl⟩
  · intro h
    exact (along_invariant (I := fun s => (channel s).Sound ok) hsound hs h).2

end Reader

end Channel

structure ExecStream where
  channel : Channel Nat
  onData : List (Stream × String)

namespace ExecStream

def opened (refused : Option String) : ExecStream := ⟨.opened refused, []⟩

/-- One event of `execStream`: it listens to `close` and to data, and an `error`
that nobody listens to is thrown. -/
def step (s : ExecStream) (e : Event) : ExecStream :=
  if s.channel.closed then s
  else
    match e with
    | .data stream chunk => { s with onData := s.onData ++ [(stream, chunk)] }
    | .exit how => { s with channel := s.channel.report how }
    | .close => { s with channel := s.channel.settle (.resolved (s.channel.code.getD 0)) }
    | .error m => { s with channel := s.channel.settle (.uncaught m) }
    | .drain | .chunk _ _ | .sourceEnd | .sourceError _ => s

def execStream (refused : Option String) (es : List Event) : ExecStream := run step (opened refused) es

theorem step_closed {s : ExecStream} (h : s.channel.closed = true) (e : Event) : step s e = s := by
  simp [step, h]

theorem step_sound (s : ExecStream) (e : Event) (hs : s.channel.Sound 0)
    (he : s.channel.ClosesWithStatus e) :
    (step s e).channel.Sound 0 := by
  by_cases hc : s.channel.closed = true
  · rwa [step_closed hc]
  rw [Bool.not_eq_true] at hc
  cases e with
  | data | drain | chunk | sourceEnd | sourceError => simpa [step, hc] using hs
  | exit how => simpa [step, hc] using hs.report hc how
  | error m => simpa [step, hc] using Channel.sound_settle (fun h => by cases h)
  | close =>
      obtain ⟨n, hn⟩ := he rfl hc
      have h : (Outcome.resolved n : Outcome Nat) = .resolved 0 →
        s.channel.ending = some (.status 0) := by
        intro h
        cases h
        exact hn
      simpa [step, hc, Channel.code_of_ending hn] using Channel.sound_settle h

theorem step_close_unreported (s : ExecStream) (hc : s.channel.closed = false)
    (hn : ¬ s.channel.HasStatus) : (step s .close).channel = s.channel.settle (.resolved 0) := by
  simp [step, hc, Channel.code_none hn]

theorem honest_iff (refused : Option String) (es : List Event) :
    (execStream refused es).channel.Honest 0 ↔
      Along step (fun s e => s.channel.ClosesWithStatus e) (opened refused) es :=
  Channel.honest_iff_closesWithStatus ExecStream.channel (fun _ e h => step_closed h e)
    step_close_unreported step_sound (Channel.sound_opened 0 refused) es

end ExecStream

/-- Where the loop over the source stands: `once(channel, "drain")` holds it back. -/
inductive Pump
  | reading
  | draining
  | ended
  deriving DecidableEq

structure WriteStream where
  channel : Channel Unit
  stderr : String
  pump : Pump
  written : List String

namespace WriteStream

def opened (refused : Option String) : WriteStream := ⟨.opened refused, "", .reading, []⟩

def fail (s : WriteStream) (message : String) : WriteStream :=
  { s with channel := s.channel.settle (.rejected message) }

def close (remotePath : String) (s : WriteStream) : Outcome Unit :=
  let code := s.channel.code.getD 0
  let text := Text.trim s.stderr
  if code = 0 then .resolved () else .rejected s!"writing {remotePath} failed (exit {code}): {text}"

def pull (s : WriteStream) (next : WriteStream) : WriteStream := if s.pump = .reading then next else s

/-- One event of `writeRemoteFileStream`; the first one that settles the promise wins. -/
def step (remotePath : String) (s : WriteStream) (e : Event) : WriteStream :=
  if s.channel.closed then s
  else
    match e with
    | .data .stderr chunk => { s with stderr := s.stderr ++ chunk }
    | .data .stdout _ => s
    | .exit how => { s with channel := s.channel.report how }
    | .error m => s.fail m
    | .close => { s with channel := s.channel.settle (s.close remotePath) }
    | .drain => if s.pump = .draining then { s with pump := .reading } else s
    | .chunk bytes room =>
        s.pull { s with written := s.written ++ [bytes], pump := if room then .reading else .draining }
    | .sourceEnd => s.pull { s with pump := .ended }
    | .sourceError m => s.pull (s.fail m)

def writeRemoteFileStream (remotePath : String) (refused : Option String) (es : List Event) : WriteStream :=
  run (step remotePath) (opened refused) es

variable {path : String}

theorem step_closed {s : WriteStream} (h : s.channel.closed = true) (e : Event) : step path s e = s := by
  simp [step, h]

theorem fail_sound (s : WriteStream) (m : String) : (s.fail m).channel.Sound () :=
  Channel.sound_settle (fun h => by cases h)

theorem pull_sound {s t : WriteStream} (hs : s.channel.Sound ()) (ht : t.channel.Sound ()) :
    (s.pull t).channel.Sound () := by
  simp only [pull]
  split
  · exact ht
  · exact hs

theorem step_sound (s : WriteStream) (e : Event) (hs : s.channel.Sound ())
    (he : s.channel.ClosesWithStatus e) :
    (step path s e).channel.Sound () := by
  by_cases hc : s.channel.closed = true
  · rwa [step_closed hc]
  rw [Bool.not_eq_true] at hc
  simp only [step, hc, Bool.false_eq_true, if_false]
  cases e with
  | data stream chunk => cases stream <;> exact hs
  | exit how => exact hs.report hc how
  | error m => exact s.fail_sound m
  | close =>
      obtain ⟨n, hn⟩ := he rfl hc
      refine Channel.sound_settle fun h => ?_
      by_cases h0 : n = 0
      · rw [hn, h0]
      · simp [close, Channel.code_of_ending hn, h0] at h
  | drain =>
      dsimp only
      split <;> exact hs
  | chunk bytes room => exact pull_sound hs hs
  | sourceEnd => exact pull_sound hs hs
  | sourceError m => exact pull_sound hs (s.fail_sound m)

theorem step_close_unreported (s : WriteStream) (hc : s.channel.closed = false)
    (hn : ¬ s.channel.HasStatus) : (step path s .close).channel = s.channel.settle (.resolved ()) := by
  simp [step, hc, close, Channel.code_none hn]

theorem honest_iff (refused : Option String) (es : List Event) :
    (writeRemoteFileStream path refused es).channel.Honest () ↔
      Along (step path) (fun s e => s.channel.ClosesWithStatus e) (opened refused) es :=
  Channel.honest_iff_closesWithStatus WriteStream.channel (fun _ e h => step_closed h e)
    step_close_unreported step_sound (Channel.sound_opened () refused) es

end WriteStream

/-- A remote command and a remote write are reported as succeeded only when the process
ended with status 0, exactly when no channel closes before it delivered an exit status. -/
theorem reported_success_iff (path : String) (refused : Option String) (es : List Event) :
    ((ExecStream.execStream refused es).channel.Honest 0 ↔
        Along ExecStream.step (fun s e => s.channel.ClosesWithStatus e) (.opened refused) es) ∧
      ((WriteStream.writeRemoteFileStream path refused es).channel.Honest () ↔
        Along (WriteStream.step path) (fun s e => s.channel.ClosesWithStatus e) (.opened refused) es) :=
  ⟨ExecStream.honest_iff refused es, WriteStream.honest_iff refused es⟩

/-- A command killed by the kernel, and an upload cut off with its connection. -/
theorem abnormal_end_reported_as_success :
    ¬ ((ExecStream.execStream none [.data .stdout "dump", .exit (.signal "KILL"), .close]).channel.Honest 0 ∨
      (WriteStream.writeRemoteFileStream "/opt/yeah-backups/db/file.gz" none
        [.chunk "bytes" true, .close]).channel.Honest ()) := by
  simp only [Channel.Honest, ExecStream.execStream, WriteStream.writeRemoteFileStream]
  decide

end Yeah.Ssh
