import Yeah.Platform.Progress

namespace Yeah.Platform

open Runs

def Answers.reading (x : Answers) (file : List Char) : Answers :=
  { x with exec := x.exec.map fun out => { out with chunks := [file] } }

def Answers.Reaches (x : Answers) (out : Output) : Prop :=
  x.selectOperation = none ∧ connectToPlatformHost x = .ok none ∧ x.exec = .ok out

/-- `remoteLog.slice(currentLog.length)`, where that is longer. -/
def caughtUp (log remoteLog : List Char) : List Char :=
  if log.length < remoteLog.length then log ++ remoteLog.drop log.length else log

namespace Outcome

/-- The command that a launch leaves in the background: it has to change its directory, remove the old log
and open its own; then it prints, and says at last how it went. -/
inductive Command
  | none
  | waiting
  | failed
  | running (written : List Char)
  | ended (ok : Bool) (written : List Char)
  deriving DecidableEq

/-- What the command has written to its log file. -/
def Command.written : Command → List Char
  | running w => w
  | ended _ w => w
  | _ => []

/-- The row and its jobs, the log file on the host, the command, and the text that its launch left in the row. -/
structure State where
  world : World
  file : Option (List Char)
  command : Command
  landed : List Char

inductive Event
  | job (x : Answers)
  | remove
  | openLog
  | fail
  | print (text : List Char)
  | mark (ok : Bool)

def job (s : State) (x : Answers) : State :=
  match s.world.row.status, x.selectOperation, connectToPlatformHost x, x.exec with
  | .queued, none, .ok none, .ok out =>
      if s.world.waiting = 0 then s
      else { s with world := runJob s.world x, command := .waiting, landed := out.landed }
  | .running, _, _, _ => { s with world := runJob s.world (x.reading (s.file.getD [])) }
  | _, _, _, _ => { s with world := runJob s.world x }

def marker (ok : Bool) : List Char := (if ok then OK_MARKER else FAIL_MARKER) ++ ['\n']

def step (s : State) : Event → State
  | .job x => job s x
  | .remove => if s.command = .waiting then { s with file := none } else s
  | .openLog => if s.command = .waiting then { s with file := some [], command := .running [] } else s
  | .fail => if s.command = .waiting then { s with command := .failed } else s
  | .print text =>
      match s.command with
      | .running w => { s with file := some (w ++ text), command := .running (w ++ text) }
      | _ => s
  | .mark ok =>
      match s.command with
      | .running w => { s with file := some (w ++ marker ok), command := .ended ok (w ++ marker ok) }
      | _ => s

/-- A platform update that was requested, with the log of an earlier one or none. -/
structure Requested (s : State) : Prop where
  kind : s.world.row.kind = .platformUpdate
  queued : s.world.row.status = .queued
  log : s.world.row.log = []
  waiting : s.world.waiting = 1
  command : s.command = .none

/-- The condition on a step: a launch that reaches the host goes well to its end, no poll comes after the
time limit or reads a file that the command has not written, and the command prints no marker before its last line. -/
def Calm (s : State) : Event → Prop
  | .job x =>
      match s.world.row.status with
      | .queued => ∀ out, x.Reaches out → out.exitCode = 0 ∧ out.launched = true ∧ x.Starts ∧ x.add = none
      | .running => timedOut x.now s.world.row.startedAt = false ∧ s.file.getD [] = s.command.written
      | _ => True
  | .print text => ∀ w, s.command = .running w → ¬ OK_MARKER <:+: w ++ text ∧ ¬ FAIL_MARKER <:+: w ++ text
  | .mark ok => ∀ w, s.command = .running w → ok = false → ¬ OK_MARKER <:+: w ++ marker ok
  | _ => True

section Jobs

variable {x : Answers} {w : World}

theorem appendLog_row (update publish : Option String) (chunk : List Char) :
    (appendLog update publish chunk w).state.row = w.row ∨
      (appendLog update publish chunk w).state.row = { w.row with log := w.row.log ++ chunk } := by
  unfold appendLog
  split
  · exact Or.inl rfl
  · cases update with
    | some m => exact Or.inl rfl
    | none => cases publish <;> exact Or.inr rfl

theorem appendLog_done {update publish : Option String} {chunk : List Char} {v : World}
    (h : appendLog update publish chunk w = .done v) :
    v.row = { w.row with log := w.row.log ++ chunk } := by
  unfold appendLog at h
  split at h
  · next hempty =>
      cases h
      rw [hempty, List.append_nil]
  · cases update <;> cases publish <;> cases h
    rfl

theorem finish_row (update publish : Option String) (status : Status) :
    (finish update publish status w).state.row = w.row ∨
      (finish update publish status w).state.row = { w.row with status := status } := by
  unfold finish
  cases update with
  | some m => exact Or.inl rfl
  | none => cases publish <;> exact Or.inr rfl

theorem written_failed {line : List Char} (hline : line ≠ []) (update publish f q : Option String)
    (w : World) :
    let v := ((appendLog update publish line w).andThen (finish f q .failed)).state
    v.waiting = w.waiting ∧ v.row.kind = w.row.kind ∧
      (v.row.status = w.row.status ∨ v.row.status = .failed) := by
  intro v
  obtain ⟨hwaiting, hstatus⟩ := written hline update publish f q .failed w
  refine ⟨hwaiting, ?_, ?_⟩
  · subst v
    cases update with
    | some m => simp [appendLog, hline]
    | none =>
        cases publish with
        | some m => simp [appendLog, hline, World.extend]
        | none => cases f <;> cases q <;> simp [appendLog, finish, hline, World.extend, World.setStatus]
  · rw [show v.row.status = _ from hstatus]
    split
    · exact Or.inr rfl
    · exact Or.inl rfl

theorem launch_reaches {out : Output} (hw : w.waiting = 0) (hc : connectToPlatformHost x = .ok none)
    (he : x.exec = .ok out)
    (hexit : out.exitCode = 0) (hlaunched : out.launched = true) (hstarts : x.Starts)
    (hadd : x.add = none) :
    (launchPlatformUpdate x w).state =
      ⟨⟨w.row.kind, .running, some x.now, w.row.log ++ out.landed⟩, 1⟩ := by
  unfold launchPlatformUpdate start
  simp [hc, he, hexit, hlaunched, hstarts.1, hstarts.2, hadd, World.extend, World.setRunning,
    World.enqueue, hw]

theorem launch_stays (hw : w.waiting = 0)
    (hn : ∀ out, ¬ (connectToPlatformHost x = .ok none ∧ x.exec = .ok out)) :
    let v := (launchPlatformUpdate x w).state
    v.waiting = 0 ∧ v.row.kind = w.row.kind ∧ (v.row.status = w.row.status ∨ v.row.status = .failed) := by
  unfold launchPlatformUpdate
  rcases hc : connectToPlatformHost x with m | ⟨_ | m⟩
  · exact ⟨hw, rfl, Or.inl rfl⟩
  · cases he : x.exec with
    | error m =>
        obtain ⟨hwaiting, h⟩ :=
          written_failed (failedToStart_ne m) x.appendFailure x.publishFailure x.finishFailure x.publishFailed w
        exact ⟨hwaiting.trans hw, h⟩
    | ok out => exact absurd ⟨hc, he⟩ (hn out)
  · obtain ⟨hwaiting, h⟩ := written_failed (falha_ne m) x.append x.publishLog x.finish x.publishStatus w
    exact ⟨hwaiting.trans hw, h⟩

theorem settle_row (remoteLog : List Char) :
    ∃ status, (settle x remoteLog w).state.row = { w.row with status := status } ∧
      (status = w.row.status ∨ status = .success ∧ OK_MARKER <:+: remoteLog ∨ status = .failed ∧ FAIL_MARKER <:+: remoteLog) := by
  unfold settle
  split
  · next hok =>
      rcases finish_row (w := w) x.finish x.publishStatus .success with h | h
      · exact ⟨_, h, Or.inl rfl⟩
      · exact ⟨_, h, Or.inr (Or.inl ⟨rfl, hok⟩)⟩
  · split
    · next hfail =>
        rcases finish_row (w := w) x.finish x.publishStatus .failed with h | h
        · exact ⟨_, h, Or.inl rfl⟩
        · exact ⟨_, h, Or.inr (Or.inr ⟨rfl, hfail⟩)⟩
    · cases x.add <;> exact ⟨_, rfl, Or.inl rfl⟩

theorem poll_row (ht : timedOut x.now w.row.startedAt = false) (file : List Char) :
    (pollPlatformUpdate (x.reading file) w).state.row = w.row ∨
      ∃ status, (pollPlatformUpdate (x.reading file) w).state.row = { w.row with log := caughtUp w.row.log file, status := status } ∧
        (status = w.row.status ∨ status = .success ∧ OK_MARKER <:+: file ∨ status = .failed ∧ FAIL_MARKER <:+: file) := by
  have ht' : ¬ timedOut (x.reading file).now w.row.startedAt = true := by
    rw [Bool.not_eq_true]
    exact ht
  unfold pollPlatformUpdate
  rw [if_neg ht']
  rcases hc : connectToPlatformHost (x.reading file) with m | ⟨_ | m⟩
  · exact Or.inl rfl
  · cases he : x.exec with
    | error m =>
        have hread : (x.reading file).exec = .error m := by rw [Answers.reading, he]; rfl
        rw [hread]
        exact Or.inl rfl
    | ok out =>
        have hread : (x.reading file).exec = .ok { out with chunks := [file] } := by
          rw [Answers.reading, he]; rfl
        rw [hread]
        simp only [List.flatten_cons, List.flatten_nil, List.append_nil]
        cases (x.reading file).selectLog with
        | some m => exact Or.inl rfl
        | none =>
            rw [Attempt.await_none, Attempt.done_andThen]
            dsimp only [id]
            unfold caughtUp
            split
            · have hrow := appendLog_row (w := w) (x.reading file).append (x.reading file).publishLog
                (file.drop w.row.log.length)
              cases ha : appendLog (x.reading file).append (x.reading file).publishLog (file.drop w.row.log.length) w with
              | threw m v =>
                  rw [ha] at hrow
                  rcases hrow with h | h
                  · exact Or.inl h
                  · exact Or.inr ⟨_, h, Or.inl rfl⟩
              | done v =>
                  have hv := appendLog_done ha
                  obtain ⟨status, hs, hstatus⟩ := settle_row (x := x.reading file) (w := v) file
                  rw [hv] at hs hstatus
                  exact Or.inr ⟨status, hs, hstatus⟩
            · rw [Attempt.done_andThen]
              obtain ⟨status, h⟩ := settle_row (x := x.reading file) (w := w) file
              exact Or.inr ⟨status, h⟩
  · cases (x.reading file).add <;> exact Or.inl rfl

end Jobs

/-- The text of a launch, then the log of the command from there on. -/
def Caught (s : State) (r : List Char) : Prop := s.world.row.log = s.landed ++ r.drop s.landed.length

/-- A longer read continues a shorter one. -/
theorem caughtUp_drop {landed r w : List Char} (h : r <+: w) :
    caughtUp (landed ++ r.drop landed.length) w = landed ++ w.drop landed.length := by
  obtain ⟨t, rfl⟩ := h
  unfold caughtUp
  rcases Nat.le_total r.length landed.length with hle | hle
  · rw [List.drop_eq_nil_of_le hle, List.append_nil]
    split
    · rfl
    · next hlen => rw [List.drop_eq_nil_of_le (Nat.le_of_not_lt hlen), List.append_nil]
  · have hlen : (landed ++ r.drop landed.length).length = r.length := by
      rw [List.length_append, List.length_drop]
      omega
    rw [hlen, List.drop_append_of_le_length hle, List.drop_left, ← List.append_assoc]
    split
    · rfl
    · next hn =>
        have ht : t = [] := by
          rw [List.length_append] at hn
          exact List.eq_nil_of_length_eq_zero (by omega)
        rw [ht, List.append_nil]

/-- The stored log then holds the command's log exactly if the text of the launch is its beginning, or holds it all. -/
theorem infix_drop_iff {landed w : List Char} :
    w <:+: landed ++ w.drop landed.length ↔ landed <+: w ∨ w <:+: landed := by
  rcases Nat.le_total w.length landed.length with hle | hle
  · rw [List.drop_eq_nil_of_le hle, List.append_nil]
    refine ⟨Or.inr, fun h => h.elim (fun hp => ?_) id⟩
    exact hp.eq_of_length_le hle ▸ List.infix_rfl
  · constructor
    · intro h
      have he : w = landed ++ w.drop landed.length :=
        h.eq_of_length (by rw [List.length_append, List.length_drop]; omega)
      exact Or.inl ⟨_, he.symm⟩
    · rintro (⟨t, rfl⟩ | h)
      · rw [List.drop_left]
      · exact h.trans (List.prefix_append _ _).isInfix

structure Inv (s : State) : Prop where
  kind : s.world.row.kind = .platformUpdate
  queued : s.world.row.status = .queued → s.command = .none ∧
    (s.world.waiting = 0 ∨ s.world.waiting = 1 ∧ s.world.row.log = [])
  file : s.command = .none ∨ s.command = .waiting ∨ s.command = .failed ∨ s.file = some s.command.written
  clean : ∀ w, s.command = .running w → ¬ OK_MARKER <:+: w ∧ ¬ FAIL_MARKER <:+: w
  cleanFailed : ∀ w, s.command = .ended false w → ¬ OK_MARKER <:+: w
  running : s.world.row.status = .running → s.command ≠ .none ∧ s.world.waiting ≤ 1 ∧
    ∃ r, r <+: s.command.written ∧ Caught s r
  terminal : s.world.row.status.terminal = true → s.command = .none ∧ s.world.row.status = .failed ∨
    ∃ ok w, s.command = .ended ok w ∧ Caught s w ∧ (s.world.row.status = .success → ok = true)

theorem Requested.inv {s : State} (h : Requested s) : Inv s := by
  refine ⟨h.kind, fun _ => ⟨h.command, Or.inr ⟨h.waiting, h.log⟩⟩, Or.inl h.command, fun w hw => ?_, fun w hw => ?_,
    fun hr => ?_, fun ht => ?_⟩
  · exact nomatch h.command.symm.trans hw
  · exact nomatch h.command.symm.trans hw
  · exact nomatch h.queued.symm.trans hr
  · rw [h.queued] at ht
    cases ht

section Steps

variable {s : State}

theorem runJob_zero {w : World} {x : Answers} (hw : w.waiting = 0) : runJob w x = w := if_pos hw

theorem Inv.idle (h : Inv s) {w : World} (hrow : w.row = s.world.row)
    (hwaiting : w.waiting ≤ s.world.waiting) :
    Inv { s with world := w } := by
  refine ⟨hrow ▸ h.kind, fun hq => ?_, h.file, h.clean, h.cleanFailed, fun hr => ?_, fun ht => ?_⟩
  · dsimp only at hq ⊢
    rw [hrow] at hq ⊢
    obtain ⟨hcommand, hw | ⟨hw, hlog⟩⟩ := h.queued hq
    · exact ⟨hcommand, Or.inl (by omega)⟩
    · rcases Nat.le_one_iff_eq_zero_or_eq_one.1 (hw ▸ hwaiting) with hw | hw
      · exact ⟨hcommand, Or.inl hw⟩
      · exact ⟨hcommand, Or.inr ⟨hw, hlog⟩⟩
  · dsimp only at hr ⊢
    rw [hrow] at hr
    obtain ⟨hcommand, hle, r, hread, hcaught⟩ := h.running hr
    refine ⟨hcommand, by omega, r, hread, ?_⟩
    unfold Caught at hcaught ⊢
    rw [hrow]
    exact hcaught
  · dsimp only at ht ⊢
    rw [hrow] at ht ⊢
    rcases h.terminal ht with hn | ⟨ok, w', hended, hcaught, hok⟩
    · exact Or.inl hn
    · refine Or.inr ⟨ok, w', hended, ?_, hok⟩
      unfold Caught at hcaught ⊢
      rw [hrow]
      exact hcaught

theorem runJob_queued {w : World} {x : Answers} (hk : w.row.kind = .platformUpdate)
    (hq : w.row.status = .queued)
    (hw : w.waiting = 1) (hs : x.selectOperation = none) :
    runJob w x = (launchPlatformUpdate x ⟨w.row, 0⟩).state := by
  unfold runJob platformOperation
  rw [if_neg (by omega), hw, hs, Attempt.await_none, Attempt.done_andThen]
  simp [hk, hq]

theorem runJob_running {w : World} {x : Answers} (hk : w.row.kind = .platformUpdate)
    (hr : w.row.status = .running)
    (hw : w.waiting = 1) (hs : x.selectOperation = none) :
    runJob w x = (pollPlatformUpdate x ⟨w.row, 0⟩).state := by
  unfold runJob platformOperation
  rw [if_neg (by omega), hw, hs, Attempt.await_none, Attempt.done_andThen]
  simp [hk, hr]

theorem runJob_unread {w : World} {x : Answers} {m : String} (hw : w.waiting = 1)
    (hs : x.selectOperation = some m) :
    runJob w x = ⟨w.row, 0⟩ := by
  unfold runJob platformOperation
  rw [if_neg (by omega), hw, hs]
  rfl

theorem inv_launch (h : Inv s) (hq : s.world.row.status = .queued) {x : Answers}
    (hc : ∀ out, x.Reaches out → out.exitCode = 0 ∧ out.launched = true ∧ x.Starts ∧ x.add = none) :
    Inv (job s x) := by
  obtain ⟨hcommand, hwaiting | ⟨hwaiting, hlog⟩⟩ := h.queued hq
  · have hjob : job s x = s := by
      unfold job
      rw [runJob_zero hwaiting, runJob_zero hwaiting]
      split <;> simp [hwaiting]
    rw [hjob]
    exact h
  by_cases hreach : ∃ out, x.Reaches out
  · obtain ⟨out, hreach⟩ := hreach
    obtain ⟨hexit, hlaunched, hstarts, hadd⟩ := hc out hreach
    obtain ⟨hselect, hconnect, hexec⟩ := hreach
    have hjob : job s x = { s with world := runJob s.world x, command := .waiting, landed := out.landed } := by
      unfold job
      simp [hq, hselect, hconnect, hexec, hwaiting]
    rw [hjob, runJob_queued h.kind hq hwaiting hselect,
      launch_reaches rfl hconnect hexec hexit hlaunched hstarts hadd]
    refine ⟨h.kind, nofun, Or.inr (Or.inl rfl), nofun, nofun,
      fun _ => ⟨nofun, le_rfl, [], List.prefix_rfl, ?_⟩, nofun⟩
    simp [Caught, hlog]
  · have hjob : job s x = { s with world := runJob s.world x } := by
      unfold job
      split
      · next out _ hselect hconnect hexec => exact absurd ⟨out, hselect, hconnect, hexec⟩ hreach
      · next hr => exact nomatch hq.symm.trans hr
      · rfl
    rw [hjob]
    cases hselect : x.selectOperation with
    | some m =>
        rw [runJob_unread hwaiting hselect]
        exact h.idle rfl (Nat.zero_le _)
    | none =>
        rw [runJob_queued h.kind hq hwaiting hselect]
        obtain ⟨hw, hk, hstatus⟩ := launch_stays (x := x) (w := ⟨s.world.row, 0⟩) rfl
          fun out hout => hreach ⟨out, hselect, hout⟩
        refine ⟨hk.trans h.kind, fun _ => ⟨hcommand, Or.inl hw⟩, h.file, h.clean, h.cleanFailed,
          fun hr => ?_, fun ht => ?_⟩
        · rcases hstatus with hs | hs
          · exact nomatch hr.symm.trans (hs.trans hq)
          · exact nomatch hr.symm.trans hs
        · rcases hstatus with hs | hs
          · dsimp only at ht
            rw [hs, hq] at ht
            cases ht
          · exact Or.inl ⟨hcommand, hs⟩

theorem ok_not_nil : ¬ OK_MARKER <:+: [] := by decide

theorem fail_not_nil : ¬ FAIL_MARKER <:+: [] := by decide

theorem Inv.ended (h : Inv s) {status : Status}
    (hm : status = .success ∧ OK_MARKER <:+: s.command.written ∨ status = .failed ∧ FAIL_MARKER <:+: s.command.written) :
    ∃ ok w, s.command = .ended ok w ∧ (status = .success → ok = true) := by
  cases hcommand : s.command with
  | none | waiting | failed =>
      rw [hcommand] at hm
      exact (hm.elim (fun hn => ok_not_nil hn.2) fun hn => fail_not_nil hn.2).elim
  | running w =>
      rw [hcommand] at hm
      obtain ⟨hok, hfail⟩ := h.clean w hcommand
      exact (hm.elim (fun hn => hok hn.2) fun hn => hfail hn.2).elim
  | ended ok w =>
      refine ⟨ok, w, rfl, fun hs => ?_⟩
      rw [hcommand] at hm
      cases ok with
      | true => rfl
      | false =>
          rcases hm with ⟨-, hm⟩ | ⟨hs', -⟩
          · exact absurd hm (h.cleanFailed w hcommand)
          · exact nomatch hs.symm.trans hs'

theorem inv_poll (h : Inv s) (hr : s.world.row.status = .running) {x : Answers}
    (ht : timedOut x.now s.world.row.startedAt = false) (hfile : s.file.getD [] = s.command.written) :
    Inv (job s x) := by
  have hjob : job s x = { s with world := runJob s.world (x.reading (s.file.getD [])) } := by
    unfold job
    rw [hr]
  rw [hjob, hfile]
  obtain ⟨hcommand, hle, r, hread, hcaught⟩ := h.running hr
  rcases Nat.le_one_iff_eq_zero_or_eq_one.1 hle with hw | hw
  · rw [runJob_zero hw]
    exact h
  cases hselect : (x.reading s.command.written).selectOperation with
  | some m =>
      rw [runJob_unread hw hselect]
      exact h.idle rfl (Nat.zero_le _)
  | none =>
      rw [runJob_running h.kind hr hw hselect]
      have hle : (pollPlatformUpdate (x.reading s.command.written) ⟨s.world.row, 0⟩).state.waiting ≤ 1 :=
        (fate_pollPlatformUpdate rfl (by rw [hr]; rfl)).waiting_le
      rcases poll_row (x := x) (w := ⟨s.world.row, 0⟩) ht s.command.written with hrow | ⟨status, hrow, hstatus⟩
      · exact h.idle hrow (hle.trans hw.ge)
      have hcaught' : caughtUp s.world.row.log s.command.written = s.landed ++
        s.command.written.drop s.landed.length := by
        rw [show s.world.row.log = _ from hcaught]
        exact caughtUp_drop hread
      refine ⟨?_, fun hq => ?_, h.file, h.clean, h.cleanFailed,
        fun _ => ⟨hcommand, hle, _, List.prefix_rfl, ?_⟩, fun hterminal => ?_⟩
      · dsimp only
        rw [hrow]
        exact h.kind
      · dsimp only at hq
        rw [hrow] at hq
        rcases hstatus with hs | ⟨hs, -⟩ | ⟨hs, -⟩
        · exact nomatch hq.symm.trans (hs.trans hr)
        · exact nomatch hq.symm.trans hs
        · exact nomatch hq.symm.trans hs
      · unfold Caught
        dsimp only
        rw [hrow]
        exact hcaught'
      · dsimp only at hterminal
        rw [hrow] at hterminal
        rcases hstatus with hs | hm
        · rw [hs, hr] at hterminal
          cases hterminal
        · obtain ⟨ok, w, hended, hok⟩ := h.ended hm
          refine Or.inr ⟨ok, w, hended, ?_, ?_⟩
          · unfold Caught
            dsimp only
            rw [hrow]
            refine hcaught'.trans ?_
            rw [hended]
            rfl
          · dsimp only
            rw [hrow]
            exact hok

theorem inv_ended (h : Inv s) (ht : s.world.row.status.terminal = true) {x : Answers} :
    Inv (job s x) := by
  have hjob : job s x = { s with world := runJob s.world x } := by
    unfold job
    split
    · next hq _ _ _ => rw [hq] at ht; cases ht
    · next hr => rw [hr] at ht; cases ht
    · rfl
  rw [hjob]
  by_cases hw : s.world.waiting = 0
  · rw [runJob_zero hw]
    exact h
  · have hrun : runJob s.world x = ⟨s.world.row, s.world.waiting - 1⟩ := by
      unfold runJob platformOperation
      rw [if_neg hw]
      cases x.selectOperation with
      | some m => rfl
      | none =>
          rw [Attempt.await_none, Attempt.done_andThen]
          cases hs : s.world.row.status with
          | queued | running => rw [hs] at ht; cases ht
          | success | failed => simp [h.kind, hs]
    rw [hrun]
    exact h.idle rfl (Nat.sub_le _ _)

theorem Inv.launched (h : Inv s) (hn : s.command ≠ .none) (he : ∀ ok w, s.command ≠ .ended ok w) :
    s.world.row.status = .running := by
  have hterminal : s.world.row.status.terminal ≠ true := by
    intro ht
    rcases h.terminal ht with ⟨hc, -⟩ | ⟨ok, w, hc, -⟩
    · exact hn hc
    · exact he ok w hc
  cases hs : s.world.row.status with
  | queued => exact absurd (h.queued hs).1 hn
  | running => rfl
  | success | failed => exact absurd (by rw [hs]; rfl) hterminal

/-- The command goes on: what it has written only grows. -/
theorem Inv.goesOn (h : Inv s) (hs : s.world.row.status = .running) {command : Command}
    {file : Option (List Char)}
    (hn : command ≠ .none) (hfile : command = .waiting ∨ command = .failed ∨ file = some command.written)
    (hwritten : s.command.written <+: command.written)
    (hclean : ∀ w, command = .running w → ¬ OK_MARKER <:+: w ∧ ¬ FAIL_MARKER <:+: w)
    (hfailed : ∀ w, command = .ended false w → ¬ OK_MARKER <:+: w) :
    Inv { s with command := command, file := file } := by
  refine ⟨h.kind, fun hq => ?_, Or.inr hfile, hclean, hfailed, fun hr => ?_, fun ht => ?_⟩
  · exact nomatch hs.symm.trans hq
  · obtain ⟨-, hle, r, hread, hcaught⟩ := h.running hr
    exact ⟨hn, hle, r, hread.trans hwritten, hcaught⟩
  · dsimp only at ht
    rw [hs] at ht
    cases ht

theorem inv_open (h : Inv s) (hw : s.command = .waiting) :
    Inv { s with file := some [], command := .running [] } := by
  refine h.goesOn (h.launched (by rw [hw]; nofun) (by rw [hw]; nofun)) nofun (Or.inr (Or.inr rfl))
    (by rw [hw]; exact List.prefix_rfl) ?_ nofun
  rintro _ ⟨⟩
  exact ⟨ok_not_nil, fail_not_nil⟩

theorem inv_fail (h : Inv s) (hw : s.command = .waiting) : Inv { s with command := .failed } :=
  h.goesOn (h.launched (by rw [hw]; nofun) (by rw [hw]; nofun)) nofun (Or.inr (Or.inl rfl)) (by rw [hw]; exact List.prefix_rfl) nofun nofun

theorem inv_print (h : Inv s) {w text : List Char} (hw : s.command = .running w)
    (hc : ¬ OK_MARKER <:+: w ++ text ∧ ¬ FAIL_MARKER <:+: w ++ text) :
    Inv { s with file := some (w ++ text), command := .running (w ++ text) } := by
  refine h.goesOn (h.launched (by rw [hw]; nofun) (by rw [hw]; nofun)) nofun
    (Or.inr (Or.inr rfl)) ?_ ?_ nofun
  · rw [hw]
    exact List.prefix_append w text
  · rintro _ ⟨⟩
    exact hc

theorem inv_mark (h : Inv s) {w : List Char} {ok : Bool} (hw : s.command = .running w)
    (hc : ok = false → ¬ OK_MARKER <:+: w ++ marker ok) :
    Inv { s with file := some (w ++ marker ok), command := .ended ok (w ++ marker ok) } := by
  refine h.goesOn (h.launched (by rw [hw]; nofun) (by rw [hw]; nofun)) nofun
    (Or.inr (Or.inr rfl)) ?_ nofun ?_
  · rw [hw]
    exact List.prefix_append w _
  · rintro _ ⟨⟩
    exact hc rfl

theorem inv_step {e : Event} (h : Inv s) (hc : Calm s e) : Inv (step s e) := by
  cases e with
  | job x =>
      unfold Calm at hc
      change Inv (job s x)
      cases hs : s.world.row.status with
      | queued => exact inv_launch h hs (by simpa only [hs] using hc)
      | running =>
          simp only [hs] at hc
          exact inv_poll h hs hc.1 hc.2
      | success => exact inv_ended h (by rw [hs]; rfl)
      | failed => exact inv_ended h (by rw [hs]; rfl)
  | remove =>
      unfold step
      dsimp only
      split
      · next hw => exact ⟨h.kind, h.queued, Or.inr (Or.inl hw), h.clean, h.cleanFailed, h.running, h.terminal⟩
      · exact h
  | openLog =>
      unfold step
      dsimp only
      split
      · next hw => exact inv_open h hw
      · exact h
  | fail =>
      unfold step
      dsimp only
      split
      · next hw => exact inv_fail h hw
      · exact h
  | print text =>
      unfold step
      dsimp only
      split
      · next w hw => exact inv_print h hw (hc w hw)
      · exact h
  | mark ok =>
      unfold step
      dsimp only
      split
      · next w hw => exact inv_mark h hw (hc w hw)
      · exact h

end Steps

/-- A platform update was requested; the log of an earlier one that went well is still there. -/
def afterAnother : State := ⟨requested, some (marker true), .none, []⟩

def launch : Event := .job (goesWell 0 "LAUNCHED\n".toList)

def poll : Event := .job (goesWell 5000 [])

def goodUpdate : List Event :=
  [launch, .remove, .openLog, .print "HEAD is now at 3f2a\n".toList, .mark true]

end Outcome

end Yeah.Platform
