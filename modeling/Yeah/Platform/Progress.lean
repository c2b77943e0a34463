import Yeah.Platform.Job

namespace Yeah.Platform

open Runs

def Status.terminal (status : Status) : Bool := status = .success ∨ status = .failed

/-- The operation has ended, or one job will go on with it. -/
def World.Settled (w : World) : Prop := w.row.status.terminal ∨ w.waiting = 1

/-- It has ended and no job waits, or exactly one job will go on with it. -/
def World.Going (w : World) : Prop :=
  w.row.status.terminal = true ∧ w.waiting = 0 ∨ w.row.status.terminal = false ∧ w.waiting = 1

def World.Stuck (w : World) : Prop := w.row.status.terminal = false ∧ w.waiting = 0

namespace Answers

variable (x : Answers)

def Reports : Prop := x.append = none ∧ x.publishLog = none ∧ x.finish = none

def Handles : Prop := x.appendFailure = none ∧ x.publishFailure = none ∧ x.finishFailure = none

def Starts : Prop := x.setRunning = none ∧ x.publishRunning = none

/-- No error of a system update keeps it from its end. -/
def UpdateSurvives : Prop :=
  x.Starts ∧
    match connectToPlatformHost x with
    | .error _ => False
    | .ok (some _) => x.Reports
    | .ok none =>
        match x.exec with
        | .error _ => x.Handles
        | .ok _ => x.finish = none ∨ x.Handles

def LaunchSurvives : Prop :=
  match connectToPlatformHost x with
  | .error _ => False
  | .ok (some _) => x.Reports
  | .ok none =>
      match x.exec with
      | .error _ => x.Handles
      | .ok out =>
          if out.exitCode ≠ 0 ∨ out.launched = false then x.Reports ∨ x.Handles
          else x.Starts ∧ x.add = none ∨ x.Handles

def PollSurvives (row : Row) : Prop :=
  if timedOut x.now row.startedAt then x.Reports
  else
    match connectToPlatformHost x with
    | .error _ => False
    | .ok (some _) => x.add = none
    | .ok none =>
        match x.exec with
        | .error _ => False
        | .ok out =>
            x.selectLog = none ∧ (row.log.length < out.chunks.flatten.length → x.append = none ∧ x.publishLog = none) ∧
              if OK_MARKER <:+: out.chunks.flatten ∨
                FAIL_MARKER <:+: out.chunks.flatten then x.finish = none else x.add = none

end Answers

/-- The errors that a job meets do not break the chain. -/
def Survives (w : World) (x : Answers) : Prop :=
  w.waiting = 0 ∨ x.selectOperation = none ∧
    match w.row.kind, w.row.status with
    | .systemUpdate, _ => x.UpdateSurvives
    | .platformUpdate, .queued => x.LaunchSurvives
    | .platformUpdate, .running => x.PollSurvives w.row
    | .platformUpdate, _ => True

section Parts

variable {x : Answers} {w v : World} {status : Status} {c c' : Prop}

/-- Whether the operation goes on is decided by `c`. -/
def Fate (v : World) (c : Prop) : Prop := (c → v.Going) ∧ (¬ c → v.Stuck)

theorem Fate.congr (h : Fate v c) (hc : c ↔ c') : Fate v c' :=
  ⟨fun hc' => h.1 (hc.2 hc'), fun hn => h.2 fun h => hn (hc.1 h)⟩

theorem fate_going (hv : v.Going) (hc : c) : Fate v c := ⟨fun _ => hv, fun hn => absurd hc hn⟩

theorem fate_stuck (hv : v.Stuck) (hc : ¬ c) : Fate v c := ⟨fun h => absurd h hc, fun _ => hv⟩

theorem fate_of_waiting (hv : v.waiting = 0) : Fate v (v.row.status.terminal = true) :=
  ⟨fun h => Or.inl ⟨h, hv⟩, fun h => ⟨by simpa using h, hv⟩⟩

theorem World.Going.settled (h : v.Going) : v.Settled := h.imp And.left And.right

theorem World.Stuck.not_settled (h : v.Stuck) : ¬ v.Settled := by
  rintro (hs | hs)
  · exact Bool.noConfusion (h.1.symm.trans hs)
  · exact Nat.zero_ne_one (h.2.symm.trans hs)

theorem Fate.settled_iff (h : Fate v c) : v.Settled ↔ c :=
  ⟨fun hs => by_contra fun hn => (h.2 hn).not_settled hs, fun hc => (h.1 hc).settled⟩

theorem Fate.waiting_le (h : Fate v c) : v.waiting ≤ 1 := by
  by_cases hc : c
  · rcases h.1 hc with ⟨-, hw⟩ | ⟨-, hw⟩
    · exact hw.le.trans (Nat.zero_le 1)
    · exact hw.le
  · exact (h.2 hc).2.le.trans (Nat.zero_le 1)

theorem written {line : List Char} (hline : line ≠ []) (update publish f q : Option String)
    (status : Status) (w : World) :
    let r := (appendLog update publish line w).andThen (finish f q status)
    r.state.waiting = w.waiting ∧
      r.state.row.status = if update = none ∧ publish = none ∧
        f = none then status else w.row.status := by
  intro r
  subst r
  cases update with
  | some m => simp [appendLog, hline]
  | none =>
      cases publish with
      | some m => simp [appendLog, hline, World.extend]
      | none =>
          cases f with
          | some m => simp [appendLog, finish, hline, World.extend]
          | none => cases q <;> simp [appendLog, finish, hline, World.extend, World.setStatus]

theorem falha_ne (m : String) : s!"\nfalha: {m}\n".toList ≠ [] := by simp [toString]

theorem failedToStart_ne (m : String) : s!"\nfailed to start: {m}\n".toList ≠ [] := by simp [toString]

theorem fate_report {line : String} (hline : line.toList ≠ []) (hw : w.waiting = 0)
    (ha : w.row.status.terminal = false)
    (ht : status.terminal = true) : Fate (report x status line w).state x.Reports := by
  obtain ⟨hwaiting, hstatus⟩ := written hline x.append x.publishLog x.finish x.publishStatus status w
  refine (fate_of_waiting (hwaiting.trans hw)).congr ?_
  unfold Answers.Reports
  rw [hstatus]
  split
  · next h => exact iff_of_true ht h
  · next h => exact iff_of_false (by simp [ha]) h

theorem fate_reportFailure {line : String} (hline : line.toList ≠ []) (hw : w.waiting = 0) :
    Fate (reportFailure x line w).state (w.row.status.terminal = true ∨ x.Handles) := by
  obtain ⟨hwaiting, hstatus⟩ :=
    written hline x.appendFailure x.publishFailure x.finishFailure x.publishFailed .failed w
  refine (fate_of_waiting (hwaiting.trans hw)).congr ?_
  unfold Answers.Handles
  rw [hstatus]
  split
  · next h => exact iff_of_true rfl (Or.inr h)
  · next h => exact ⟨Or.inl, fun hor => hor.resolve_right h⟩

theorem fate_rescue {r : Attempt World} {line : String → String} (hline : ∀ m, (line m).toList ≠ [])
    (hr : r.Ends World.Going (·.waiting = 0))
    (hc : r.Ends (fun _ => True) (·.row.status.terminal = true) ↔ c) :
    Fate (r.rescue fun m v => reportFailure x (line m) v).state (c ∨ x.Handles) := by
  refine Fate.congr ?_ (or_congr_left hc)
  cases r with
  | done v => exact fate_going hr (Or.inl trivial)
  | threw m v => exact fate_reportFailure (hline m) hr

theorem report_ends {line : String} (hline : line.toList ≠ []) (hw : w.waiting = 0)
    (ha : w.row.status.terminal = false)
    (ht : status.terminal = true) :
    (report x status line w).Ends World.Going (·.waiting = 0) ∧
      ((report x status line w).Ends (fun _ => True) (·.row.status.terminal = true) ↔ x.Reports) := by
  have hfate := fate_report (x := x) hline hw ha ht
  obtain ⟨hwaiting, -⟩ := written hline x.append x.publishLog x.finish x.publishStatus status w
  change (report x status line w).state.waiting = _ at hwaiting
  have hdone : ∀ v, report x status line w = .done v → x.Reports := by
    intro v hv
    unfold report appendLog finish at hv
    rw [if_neg hline] at hv
    unfold Answers.Reports
    cases happ : x.append <;> cases hpub : x.publishLog <;> cases hfin : x.finish <;> simp [happ, hpub, hfin] at hv ⊢
  cases hr : report x status line w with
  | done v =>
      rw [hr] at hfate
      exact ⟨hfate.1 (hdone v hr), iff_of_true trivial (hdone v hr)⟩
  | threw m v =>
      rw [hr] at hfate hwaiting
      have hv : v.waiting = 0 := hwaiting.trans hw
      refine ⟨hv, fun ht => ?_, fun hc => (hfate.1 hc).elim And.left fun h => ?_⟩
      · by_contra hn
        exact Bool.noConfusion ((hfate.2 hn).1.symm.trans ht)
      · exact absurd (hv.symm.trans h.2) Nat.zero_ne_one

theorem start_ends (hw : w.waiting = 0) (ha : w.row.status.terminal = false) :
    (start x w).Ends (fun v => x.Starts ∧ v.waiting = 0 ∧ v.row.status.terminal = false)
      (fun v => ¬ x.Starts ∧ v.waiting = 0 ∧ v.row.status.terminal = false) := by
  unfold start Answers.Starts
  cases hset : x.setRunning with
  | some m => simp [hw, ha]
  | none => cases hpub : x.publishRunning <;> simp [World.setRunning, hw, Status.terminal]

/-- The next job is queued, or nothing will end the operation. -/
theorem fate_add (hw : w.waiting = 0) (ha : w.row.status.terminal = false) :
    Fate (Attempt.await x.add World.enqueue w).state (x.add = none) := by
  cases hadd : x.add with
  | none => exact fate_going (Or.inr ⟨ha, congrArg Nat.succ hw⟩) rfl
  | some m => exact fate_stuck ⟨ha, hw⟩ nofun

theorem start_add_ends (hw : w.waiting = 0) (ha : w.row.status.terminal = false) :
    let r := (start x w).andThen (Attempt.await x.add World.enqueue)
    r.Ends World.Going (·.waiting = 0) ∧
      (r.Ends (fun _ => True) (·.row.status.terminal = true) ↔ x.Starts ∧ x.add = none) := by
  intro r
  subst r
  have hstart := start_ends (x := x) hw ha
  cases hr : start x w with
  | threw m v =>
      rw [hr] at hstart
      obtain ⟨hs, hv, hnot⟩ := hstart
      exact ⟨hv, by simp [hs, hnot]⟩
  | done v =>
      rw [hr] at hstart
      obtain ⟨hs, hv, hnot⟩ := hstart
      cases hadd : x.add with
      | none => exact ⟨Or.inr ⟨hnot, congrArg Nat.succ hv⟩, iff_of_true trivial ⟨hs, rfl⟩⟩
      | some m => simp [hv, hnot]

theorem finish_ends (hw : w.waiting = 0) (ha : w.row.status.terminal = false)
    (ht : status.terminal = true) :
    (finish x.finish x.publishStatus status w).Ends World.Going (·.waiting = 0) ∧
      ((finish x.finish x.publishStatus status w).Ends (fun _ => True) (·.row.status.terminal = true) ↔ x.finish = none) := by
  unfold finish
  cases hfin : x.finish with
  | some m => simp [hw, ha]
  | none => cases hpub : x.publishStatus <;> simp [World.Going, World.setStatus, hw, ht]

theorem fate_finish (hw : w.waiting = 0) (ha : w.row.status.terminal = false)
    (ht : status.terminal = true) :
    Fate (finish x.finish x.publishStatus status w).state (x.finish = none) := by
  unfold finish
  cases hfin : x.finish with
  | some m => exact fate_stuck ⟨ha, hw⟩ nofun
  | none => cases hpub : x.publishStatus <;> exact fate_going (Or.inl ⟨ht, hw⟩) rfl

end Parts

section Jobs

variable {x : Answers} {w : World}

theorem fate_runSystemUpdate (hw : w.waiting = 0) (ha : w.row.status.terminal = false) :
    Fate (runSystemUpdate x w).state x.UpdateSurvives := by
  have hstart := start_ends (x := x) hw ha
  unfold runSystemUpdate Answers.UpdateSurvives
  cases hr : start x w with
  | threw m v =>
      rw [hr] at hstart
      obtain ⟨hs, hv, hnot⟩ := hstart
      exact fate_stuck ⟨hnot, hv⟩ fun h => hs h.1
  | done v =>
      rw [hr] at hstart
      obtain ⟨hs, hv, hnot⟩ := hstart
      rw [Attempt.done_andThen, and_iff_right hs]
      rcases hc : connectToPlatformHost x with m | ⟨_ | m⟩
      · exact fate_stuck ⟨hnot, hv⟩ id
      · cases he : x.exec with
        | error m =>
            have hthrew :=
              fate_rescue (x := x) (r := .threw m v) (c := False) falha_ne hv (by simp [hnot])
            exact hthrew.congr (by simp)
        | ok out =>
            have hterminal : (if out.exitCode = 0 then Status.success else .failed).terminal =
                true := by split <;> rfl
            have hends := finish_ends (x := x) (w := v.extend out.landed) hv hnot hterminal
            exact fate_rescue falha_ne hends.1 hends.2
      · exact fate_report (falha_ne m) hv hnot rfl

theorem fate_launchPlatformUpdate (hw : w.waiting = 0) (ha : w.row.status.terminal = false) :
    Fate (launchPlatformUpdate x w).state x.LaunchSurvives := by
  unfold launchPlatformUpdate Answers.LaunchSurvives
  rcases hc : connectToPlatformHost x with m | ⟨_ | m⟩
  · exact fate_stuck ⟨ha, hw⟩ id
  · cases he : x.exec with
    | error m =>
        have hthrew :=
          fate_rescue (x := x) (r := .threw m w) (c := False) failedToStart_ne hw (by simp [ha])
        exact hthrew.congr (by simp)
    | ok out =>
        dsimp only
        split
        · have hline : "\ncould not start the update in the background\n".toList ≠ [] := by simp
          have hends :=
            report_ends (x := x) (w := w.extend out.landed) hline hw ha (Eq.refl Status.failed.terminal)
          exact fate_rescue failedToStart_ne hends.1 hends.2
        · have hends := start_add_ends (x := x) (w := w.extend out.landed) hw ha
          exact fate_rescue failedToStart_ne hends.1 hends.2
  · exact fate_report (falha_ne m) hw ha rfl

theorem fate_settle (hw : w.waiting = 0) (ha : w.row.status.terminal = false) (remoteLog : List Char) :
    Fate (settle x remoteLog w).state
      (if OK_MARKER <:+: remoteLog ∨ FAIL_MARKER <:+: remoteLog then x.finish = none else x.add = none) := by
  unfold settle
  by_cases hok : OK_MARKER <:+: remoteLog
  · rw [if_pos hok, if_pos (Or.inl hok)]
    exact fate_finish hw ha rfl
  · rw [if_neg hok]
    by_cases hfail : FAIL_MARKER <:+: remoteLog
    · rw [if_pos hfail, if_pos (Or.inr hfail)]
      exact fate_finish hw ha rfl
    · rw [if_neg hfail, if_neg (not_or.2 ⟨hok, hfail⟩)]
      exact fate_add hw ha

theorem fate_pollPlatformUpdate (hw : w.waiting = 0) (ha : w.row.status.terminal = false) :
    Fate (pollPlatformUpdate x w).state (x.PollSurvives w.row) := by
  unfold pollPlatformUpdate Answers.PollSurvives
  split
  · exact fate_report (by simp) hw ha rfl
  rcases hc : connectToPlatformHost x with m | ⟨_ | m⟩
  · exact fate_stuck ⟨ha, hw⟩ id
  · cases he : x.exec with
    | error m => exact fate_stuck ⟨ha, hw⟩ id
    | ok out =>
        dsimp only
        cases hsel : x.selectLog with
        | some m => exact fate_stuck ⟨ha, hw⟩ fun h => nomatch h.1
        | none =>
            rw [Attempt.await_none, Attempt.done_andThen, and_iff_right rfl]
            dsimp only [id]
            by_cases hlen : w.row.log.length < out.chunks.flatten.length
            · have hne : out.chunks.flatten.drop w.row.log.length ≠ [] := by
                rw [← List.length_pos_iff_ne_nil, List.length_drop]
                omega
              rw [if_pos hlen, imp_iff_right hlen]
              unfold appendLog
              rw [if_neg hne]
              cases happ : x.append with
              | some m => exact fate_stuck ⟨ha, hw⟩ fun h => nomatch h.1.1
              | none =>
                  cases hpub : x.publishLog with
                  | some m => exact fate_stuck ⟨ha, hw⟩ fun h => nomatch h.1.2
                  | none =>
                      rw [and_iff_right ⟨rfl, rfl⟩]
                      exact fate_settle (w := w.extend (out.chunks.flatten.drop w.row.log.length)) hw ha _
            · rw [if_neg hlen, Attempt.done_andThen, and_iff_right fun h => absurd h hlen]
              exact fate_settle hw ha _
  · exact fate_add hw ha

theorem fate_runJob (hw : w.waiting = 1) (ha : w.row.status.terminal = false) :
    Fate (runJob w x) (Survives w x) := by
  have hone : w.waiting ≠ 0 := by omega
  unfold runJob Survives
  rw [if_neg hone, or_iff_right hone, hw]
  unfold platformOperation
  cases hsel : x.selectOperation with
  | some m => exact fate_stuck ⟨ha, rfl⟩ fun h => nomatch h.1
  | none =>
      rw [and_iff_right rfl, Attempt.await_none, Attempt.done_andThen]
      rcases w with ⟨⟨kind, status, startedAt, log⟩, waiting⟩
      cases kind with
      | systemUpdate => exact fate_runSystemUpdate rfl ha
      | platformUpdate =>
          cases status with
          | queued => exact fate_launchPlatformUpdate rfl ha
          | running => exact fate_pollPlatformUpdate rfl ha
          | success | failed => cases ha

/-- In any state of a run that is going, the next job leaves the operation settled exactly if it survives. -/
theorem runJob_settled (h : w.Going) : (runJob w x).Settled ↔ Survives w x := by
  rcases h with ⟨ht, hw⟩ | ⟨ha, hw⟩
  · have hrun : runJob w x = w := if_pos hw
    rw [hrun]
    exact iff_of_true (Or.inl ht) (Or.inl hw)
  · exact (fate_runJob hw ha).settled_iff

theorem runJob_going (h : w.Going) (hs : Survives w x) : (runJob w x).Going := by
  rcases h with ⟨ht, hw⟩ | ⟨ha, hw⟩
  · have hrun : runJob w x = w := if_pos hw
    rw [hrun]
    exact Or.inl ⟨ht, hw⟩
  · exact (fate_runJob hw ha).1 hs

end Jobs

/-- Over any run of the jobs of an operation, from the request on: it is settled after each of them exactly
if each survives its errors. -/
theorem run_settled_iff {w : World} (hqueued : w.row.status = .queued) (hw : w.waiting = 1)
    (xs : List Answers) :
    Along runJob (fun w x => (runJob w x).Settled) w xs ↔ Along runJob Survives w xs := by
  refine along_congr (I := World.Going) (fun w x h hs => runJob_going h ((runJob_settled h).1 hs))
    (fun w x h => runJob_settled h) ?_ xs
  exact Or.inr ⟨by rw [hqueued]; rfl, hw⟩

def requested : World := ⟨⟨.platformUpdate, .queued, none, []⟩, 1⟩

/-- Every call goes well; a command prints `chunk`. -/
def goesWell (now : Nat) (chunk : List Char) : Answers :=
  ⟨now, none, none, none, .ok true, none, .ok ⟨0, [chunk], chunk⟩, none, none, none, none, none, none,
    none, none, none, none⟩

def loses (now : Nat) : Answers := { goesWell now [] with exec := .error "Not connected" }

theorem run_settled_iff_requested :
    Along runJob (fun w x => (runJob w x).Settled) requested [goesWell 0 "LAUNCHED\n".toList, goesWell 5000 OK_MARKER] := by
  have hfirst : runJob requested (goesWell 0 "LAUNCHED\n".toList) =
      ⟨⟨.platformUpdate, .running, some 0, "LAUNCHED\n".toList⟩, 1⟩ := by
    decide +kernel
  have hlaunch : (goesWell 0 "LAUNCHED\n".toList).LaunchSurvives := by
    have hl : Output.launched ⟨0, ["LAUNCHED\n".toList], "LAUNCHED\n".toList⟩ = true := by decide +kernel
    simp only [Answers.LaunchSurvives, connectToPlatformHost, goesWell, hl, Answers.Starts]
    simp
  have hpoll : (goesWell 5000 OK_MARKER).PollSurvives ⟨.platformUpdate, .running, some 0, "LAUNCHED\n".toList⟩ := by
    have ht : timedOut 5000 (some 0) = false := rfl
    have hm : OK_MARKER <:+: [OK_MARKER].flatten ∨ FAIL_MARKER <:+: [OK_MARKER].flatten := by
      decide +kernel
    simp only [Answers.PollSurvives, connectToPlatformHost, goesWell, ht, if_pos hm]
    simp
  exact (run_settled_iff rfl rfl _).2 ⟨Or.inr ⟨rfl, hlaunch⟩, hfirst ▸ Or.inr ⟨rfl, hpoll⟩, trivial⟩

/-- The poll after a launch is not caught: the operation stays running with no job. -/
theorem stuck_running :
    let w := Runs.run runJob requested [goesWell 0 "LAUNCHED\n".toList, loses 5000]
    w.row.status = .running ∧ w.waiting = 0 ∧ ¬ w.Settled := by
  intro w
  have hw : w = ⟨⟨.platformUpdate, .running, some 0, "LAUNCHED\n".toList⟩, 0⟩ := by decide +kernel
  rw [hw]
  exact ⟨rfl, rfl, by simp [World.Settled, Status.terminal]⟩

end Yeah.Platform
