import Yeah.Deploy.Redact
import Yeah.Runs
import Mathlib.Data.List.Induction

namespace Yeah.Tasks

open Deploy

def MAX_TASK_LOG_BYTES : Nat := 200000

def truncationMarker : Units := utf16 "\n[output truncated]\n"

def appendCapped (current chunk : Units) (max : Nat) : Units :=
  if max ≤ current.length then current
  else if chunk.length ≤ max - current.length then current ++ chunk
  else current ++ chunk.take (max - current.length) ++ truncationMarker

/-- What the appends make of a task's output. -/
def cappedLog (max : Nat) (chunks : List Units) : Units :=
  chunks.foldl (fun log chunk => appendCapped log chunk max) []

/-- The winner of the race between the command and its time limit. -/
inductive TaskEnd where
  | timeout
  | exited (code : Nat)
  deriving DecidableEq

/-- What happens after the row of the execution is written. Nothing is printed before something
throws: the connection, or the start of the command. -/
inductive TaskRun where
  | threw (message : Units)
  | ran (chunks : List Units) (ending : TaskEnd)
  deriving DecidableEq

namespace TaskRun

def chunks : TaskRun → List Units
  | threw _ => []
  | ran chunks _ => chunks

def output (run : TaskRun) : Units := run.chunks.flatten

def exitCode : TaskRun → Option Nat
  | ran _ (.exited code) => some code
  | _ => none

def failure (timeoutSeconds : Nat) : TaskRun → Option Units
  | threw message => some message
  | ran _ .timeout => some (utf16 ("exceeded the " ++ toString timeoutSeconds ++ "s limit"))
  | ran _ (.exited code) => if code ≠ 0 then some (utf16 ("exited with code " ++ toString code)) else none

end TaskRun

def failureLine (failure : Units) : Units := utf16 "\n[" ++ failure ++ utf16 "]\n"

inductive ExecutionStatus where
  | success
  | failed
  deriving DecidableEq

structure TaskExecution where
  status : ExecutionStatus
  log : Units
  exitCode : Option Nat
  deriving DecidableEq

/-- What is stored of the run. An empty reason is no reason. -/
def runScheduledTask (timeoutSeconds : Nat) (run : TaskRun) : TaskExecution :=
  let log := cappedLog MAX_TASK_LOG_BYTES run.chunks
  match (run.failure timeoutSeconds).filter (· ≠ []) with
  | some failure => ⟨.failed, appendCapped log (failureLine failure) MAX_TASK_LOG_BYTES, run.exitCode⟩
  | none => ⟨.success, log, run.exitCode⟩

/-- The first characters of the output, and the marker if there were more. -/
def Honest (max : Nat) (chunks : List Units) : Prop :=
  cappedLog max chunks =
    chunks.flatten.take max ++ if max < chunks.flatten.length then truncationMarker else []

def FillsExactly (max : Nat) (chunks : List Units) : Prop :=
  ∃ before after, chunks = before ++ after ∧ before.flatten.length = max ∧ after.flatten ≠ []

def Told (timeoutSeconds : Nat) (run : TaskRun) (reason : Units) : Prop :=
  cappedLog MAX_TASK_LOG_BYTES run.chunks ++
    failureLine reason <+: (runScheduledTask timeoutSeconds run).log

section Log

variable {max : Nat} {chunks : List Units} {chunk : Units}

theorem cappedLog_snoc : cappedLog max (chunks ++ [chunk]) = appendCapped (cappedLog max chunks) chunk max := by
  simp [cappedLog]

theorem truncationMarker_ne_nil : truncationMarker ≠ [] := by decide

theorem FillsExactly.le (h : FillsExactly max chunks) : max < chunks.flatten.length := by
  obtain ⟨before, after, rfl, hbefore, hafter⟩ := h
  have hpos : 0 < after.flatten.length := List.length_pos_iff.2 hafter
  rw [List.flatten_append, List.length_append]
  omega

theorem fillsExactly_snoc : FillsExactly max (chunks ++ [chunk]) ↔
    FillsExactly max chunks ∨ (chunks.flatten.length = max ∧ chunk ≠ []) := by
  constructor
  · rintro ⟨before, after, he, hbefore, hafter⟩
    rcases List.eq_nil_or_concat' after with rfl | ⟨after', last, rfl⟩
    · exact absurd rfl hafter
    · rw [← List.append_assoc] at he
      obtain ⟨rfl, hlast⟩ := List.append_inj' he rfl
      obtain rfl : chunk = last := by simpa using hlast
      by_cases hrest : after'.flatten = []
      · refine Or.inr ⟨?_, ?_⟩
        · rw [List.flatten_append, hrest, List.append_nil, hbefore]
        · rintro rfl
          exact hafter (by simpa using hrest)
      · exact Or.inl ⟨before, after', rfl, hbefore, hrest⟩
  · rintro (⟨before, after, rfl, hbefore, hafter⟩ | ⟨hfull, hchunk⟩)
    · refine ⟨before, after ++ [chunk], by simp, hbefore, ?_⟩
      rw [List.flatten_append]
      exact List.append_ne_nil_of_left_ne_nil hafter _
    · exact ⟨chunks, [chunk], rfl, hfull, by simpa using hchunk⟩

theorem appendCapped_of_le {log : Units} (h : max ≤ log.length) : appendCapped log chunk max = log :=
  if_pos h

theorem appendCapped_of_lt {log : Units} (h : log.length < max) : appendCapped log chunk max =
    (log ++ chunk).take max ++ if max < (log ++ chunk).length then truncationMarker else [] := by
  have hlength : (log ++ chunk).length = log.length + chunk.length := List.length_append
  rw [appendCapped, if_neg (by omega)]
  by_cases hfits : chunk.length ≤ max - log.length
  · rw [if_pos hfits, if_neg (by omega), List.append_nil, List.take_of_length_le (by omega)]
  · have htake : (log ++ chunk).take max = log ++ chunk.take (max - log.length) := by
      rw [List.take_append, List.take_of_length_le (Nat.le_of_lt h)]
    rw [if_neg hfits, if_pos (by omega), htake]

/-- The log after any chunks: the marker is missing where the log was full to the last character. -/
theorem cappedLog_cases (max : Nat) (chunks : List Units) :
    ((chunks.flatten.length ≤ max ∨ FillsExactly max chunks) ∧ cappedLog max chunks = chunks.flatten.take max) ∨
      (max < chunks.flatten.length ∧ ¬ FillsExactly max chunks ∧
        cappedLog max chunks = chunks.flatten.take max ++ truncationMarker) := by
  induction chunks using List.reverseRecOn with
  | nil => exact Or.inl ⟨Or.inl (Nat.zero_le _), by simp [cappedLog]⟩
  | append_singleton chunks chunk ih =>
      have hlength : (chunks.flatten ++ chunk).length = chunks.flatten.length + chunk.length :=
        List.length_append
      rw [cappedLog_snoc, fillsExactly_snoc, List.flatten_append, List.flatten_singleton]
      rcases Nat.lt_or_ge chunks.flatten.length max with hlt | hge
      · have hopen : ¬ FillsExactly max chunks := fun h => absurd h.le (by omega)
        have hlog : cappedLog max chunks = chunks.flatten := by
          rcases ih with ⟨-, hlog⟩ | ⟨hover, -⟩
          · rw [hlog, List.take_of_length_le (Nat.le_of_lt hlt)]
          · omega
        rw [hlog, appendCapped_of_lt hlt]
        by_cases hover : max < (chunks.flatten ++ chunk).length
        · rw [if_pos hover]
          refine Or.inr ⟨hover, ?_, rfl⟩
          rintro (h | ⟨h, -⟩)
          · exact hopen h
          · omega
        · rw [if_neg hover, List.append_nil]
          exact Or.inl ⟨Or.inl (by omega), rfl⟩
      · rw [List.take_append_of_le_length hge]
        rcases ih with ⟨hquiet, hlog⟩ | ⟨hover, hopen, hlog⟩
        · have hfull : max ≤ (cappedLog max chunks).length := by
            rw [hlog, List.length_take]
            omega
          rw [appendCapped_of_le hfull]
          refine Or.inl ⟨?_, hlog⟩
          rcases hquiet with hle | hfills
          · by_cases hchunk : chunk = []
            · subst hchunk
              exact Or.inl (by simpa using hle)
            · exact Or.inr (Or.inr ⟨by omega, hchunk⟩)
          · exact Or.inr (Or.inl hfills)
        · have hfull : max ≤ (cappedLog max chunks).length := by
            rw [hlog, List.length_append, List.length_take]
            omega
          rw [appendCapped_of_le hfull]
          refine Or.inr ⟨by omega, ?_, hlog⟩
          rintro (h | ⟨h, -⟩)
          · exact hopen h
          · omega

theorem honest_iff : Honest max chunks ↔ ¬ FillsExactly max chunks := by
  rw [Honest]
  rcases cappedLog_cases max chunks with ⟨hquiet, hlog⟩ | ⟨hover, hopen, hlog⟩
  · rw [hlog]
    rcases hquiet with hle | hfills
    · have hopen : ¬ FillsExactly max chunks := fun h => absurd h.le (by omega)
      rw [if_neg (by omega), List.append_nil]
      exact iff_of_true rfl hopen
    · rw [if_pos hfills.le]
      refine iff_of_false (fun he => ?_) (not_not_intro hfills)
      exact truncationMarker_ne_nil (List.self_eq_append_right.1 he)
  · rw [hlog, if_pos hover]
    exact iff_of_true rfl hopen

theorem length_le_cappedLog (h : max ≤ chunks.flatten.length) : max ≤ (cappedLog max chunks).length := by
  rcases cappedLog_cases max chunks with ⟨-, hlog⟩ | ⟨-, -, hlog⟩
  · rw [hlog, List.length_take]
    omega
  · rw [hlog, List.length_append, List.length_take]
    omega

theorem cappedLog_of_lt (h : chunks.flatten.length < max) : cappedLog max chunks = chunks.flatten := by
  rcases cappedLog_cases max chunks with ⟨-, hlog⟩ | ⟨hover, -⟩
  · rw [hlog, List.take_of_length_le (Nat.le_of_lt h)]
  · omega

end Log

section Line

variable {timeoutSeconds : Nat} {run : TaskRun} {reason : Units}

theorem failureLine_ne_nil (reason : Units) : failureLine reason ≠ [] :=
  List.append_ne_nil_of_right_ne_nil _ (by decide)

theorem append_not_isPrefix {α : Type} {l t : List α} (h : t ≠ []) : ¬ l ++ t <+: l := by
  intro hle
  have hlength := hle.length_le
  rw [List.length_append] at hlength
  exact h (List.eq_nil_of_length_eq_zero (by omega))

/-- A line stands whole behind a log with room if what does not fit is the beginning of the marker. -/
theorem append_prefix_appendCapped {log line : Units} {max : Nat} (h : log.length < max) :
    log ++ line <+: appendCapped log line max ↔ line.drop (max - log.length) <+: truncationMarker := by
  rw [appendCapped, if_neg (by omega)]
  by_cases hfits : line.length ≤ max - log.length
  · rw [if_pos hfits, List.drop_eq_nil_of_le hfits]
    exact iff_of_true List.prefix_rfl List.nil_prefix
  · rw [if_neg hfits, List.append_assoc, List.prefix_append_right_inj]
    nth_rewrite 1 [← List.take_append_drop (max - log.length) line]
    exact List.prefix_append_right_inj _

theorem told_iff (hfailure : run.failure timeoutSeconds = some reason) :
    Told timeoutSeconds run reason ↔ reason ≠ [] ∧ run.output.length < MAX_TASK_LOG_BYTES ∧
      (failureLine reason).drop (MAX_TASK_LOG_BYTES - run.output.length) <+: truncationMarker := by
  by_cases hreason : reason = []
  · subst hreason
    refine iff_of_false ?_ fun h => h.1 rfl
    rw [Told, runScheduledTask, hfailure]
    exact append_not_isPrefix (failureLine_ne_nil [])
  · have hlog : (runScheduledTask timeoutSeconds run).log =
        appendCapped (cappedLog MAX_TASK_LOG_BYTES run.chunks) (failureLine reason) MAX_TASK_LOG_BYTES := by
      rw [runScheduledTask, hfailure, Option.filter_some, if_pos (by simpa using hreason)]
    rw [Told, hlog]
    rcases Nat.lt_or_ge run.output.length MAX_TASK_LOG_BYTES with hlt | hge
    · have hlt' : run.chunks.flatten.length < MAX_TASK_LOG_BYTES := hlt
      rw [cappedLog_of_lt hlt', append_prefix_appendCapped hlt']
      exact ⟨fun h => ⟨hreason, hlt, h⟩, fun h => h.2.2⟩
    · rw [appendCapped_of_le (length_le_cappedLog hge)]
      refine iff_of_false (append_not_isPrefix (failureLine_ne_nil reason)) fun h => ?_
      omega

end Line

/-- A log is honest unless it was full to the last character before the last of the output. The reason of a
failed run is told if there is one, and the output leaves the line its room, but for what the marker begins with. -/
theorem taskLog_iff (max : Nat) (chunks : List (List UInt16)) :
    (Honest max chunks ↔ ¬ FillsExactly max chunks) ∧
      ∀ timeoutSeconds (run : TaskRun) reason, run.failure timeoutSeconds = some reason →
        (Told timeoutSeconds run reason ↔ reason ≠ [] ∧ run.output.length < MAX_TASK_LOG_BYTES ∧
          (failureLine reason).drop (MAX_TASK_LOG_BYTES - run.output.length) <+: truncationMarker) :=
  ⟨honest_iff, fun _ _ _ hfailure => told_iff hfailure⟩

theorem taskLog_timeout : Told 60 (.ran [utf16 "working"] .timeout) (utf16 "exceeded the 60s limit") := by
  have hfailure : TaskRun.failure 60 (.ran [utf16 "working"] .timeout) =
      some (utf16 "exceeded the 60s limit") := by decide
  have hdrop : (failureLine (utf16 "exceeded the 60s limit")).drop 199993 = [] :=
    List.drop_eq_nil_of_le (by decide)
  refine ((taskLog_iff 0 []).2 60 _ _ hfailure).2 ⟨by decide, by decide, ?_⟩
  exact hdrop ▸ List.nil_prefix

/-- Where a chunk fills the log to the last character, later output and the reason go without a word. -/
theorem filled_log :
    ¬ Honest MAX_TASK_LOG_BYTES [List.replicate MAX_TASK_LOG_BYTES star, [star]] ∧
      ¬ Told 60 (.ran [List.replicate MAX_TASK_LOG_BYTES star] (.exited 1)) (utf16 "exited with code 1") := by
  have hlength : (List.replicate MAX_TASK_LOG_BYTES star).length = MAX_TASK_LOG_BYTES :=
    List.length_replicate
  constructor
  · rw [honest_iff, not_not]
    exact ⟨[List.replicate MAX_TASK_LOG_BYTES star], [[star]], rfl, by simp, by simp⟩
  · have hfailure : TaskRun.failure 60 (.ran [List.replicate MAX_TASK_LOG_BYTES star] (.exited 1)) =
        some (utf16 "exited with code 1") := rfl
    rw [told_iff hfailure]
    rintro ⟨-, hlt, -⟩
    rw [TaskRun.output, TaskRun.chunks, List.flatten_singleton, hlength] at hlt
    exact Nat.lt_irrefl _ hlt

end Yeah.Tasks
