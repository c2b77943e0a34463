import Yeah.Runs
import Yeah.Tables

namespace Yeah.Databases.Restores

open Runs

inductive DatabaseStatus
  | idle
  | provisioning
  | running
  | error
  deriving DecidableEq

inductive Status
  | queued
  | running
  | success
  | failed
  deriving DecidableEq

def Status.active : Status → Bool
  | queued | running => true
  | success | failed => false

structure Restore where
  databaseId : Nat
  status : Status

def Restore.active (r : Restore) : Bool := r.status.active

def maxUploadBytes : Nat := 120 * 1024 * 1024

/-- A restore of a backup, or of a file in the request's body with its declared length. -/
inductive Kind
  | execution
  | upload (name : Option String) (declared : Nat)

structure Execution where
  success : Bool
  filePath : Option String

/-- What a call finds outside the tables of restores: the execution, the bytes of the body, the server, and how the upload fails. -/
structure World where
  execution : Option Execution
  bytes : Nat
  connected : Bool
  upload : Option String

inductive Call
  | restoreBlocked
  | findExecution
  | arrayBuffer
  | sshTo
  | writeRemoteFile
  | insert
  | add (restore : Nat)

inductive Stage
  | next (call : Call)
  | refused (status : Nat) (error : String)
  | threw
  | answered (restore : Nat)

/-- A request with the row of its database as it was read at the start. -/
structure Request where
  databaseId : Nat
  status : DatabaseStatus
  kind : Kind
  stage : Stage

/-- Where the worker stands in a job, by what it writes next. -/
inductive Hand
  | waiting
  | taken
  /-- The rows were read; the database and the server may not exist. -/
  | read (found : Bool)
  | missing
  | restoring
  | failing
  | ended
  deriving DecidableEq

structure Job where
  restore : Nat
  hand : Hand

/-- Rows are numbered by their position. -/
structure State where
  databases : List DatabaseStatus
  restores : List Restore
  requests : List Request
  jobs : List Job

inductive Action
  | request (databaseId : Nat) (kind : Kind)
  /-- The next call of a request. -/
  | next (i : Nat) (world : World)
  | throws (i : Nat)
  /-- Another part of the panel sets the database's status. -/
  | setStatus (databaseId : Nat) (status : DatabaseStatus)
  | take (j : Nat)
  | read (j : Nat) (found : Bool)
  /-- The next write of the status. -/
  | write (j : Nat)
  /-- An exception, inside the `try` or not. -/
  | raise (j : Nat)
  /-- The worker dies and the job is given out again. -/
  | die (j : Nat)

def restoreBlocked (databaseId : Nat) (status : DatabaseStatus) (restores : List Restore) :
    Option String :=
  if status ≠ .running then some "the database must be running to receive a restore"
  else if restores.any fun r => r.databaseId = databaseId ∧
    r.active then some "a restore is already in progress for this database"
  else none

/-- After the check. An uploaded file's name keeps its length when characters are replaced. -/
def admitted : Kind → Stage
  | .execution => .next .findExecution
  | .upload name declared =>
      if name.getD "" = "" then .refused 400 "provide the file name (?name=)"
      else if declared > maxUploadBytes then
        .refused 413 "file too large to upload through the panel (maximum 120 MB) — put it in S3 and restore from there"
      else .next .arrayBuffer

/-- The calls that leave the tables alone. -/
def perform (restores : List Restore) (r : Request) (world : World) : Call → Stage
  | .restoreBlocked =>
      match restoreBlocked r.databaseId r.status restores with
      | some blocked => .refused 409 blocked
      | none => admitted r.kind
  | .findExecution =>
      if world.execution.any fun execution => execution.success ∧
        (execution.filePath.getD "") ≠ "" then .next .insert
      else .refused 404 "backup not found (or did not finish successfully)"
  | .arrayBuffer =>
      if world.bytes = 0 then .refused 400 "empty file"
      else if world.bytes > maxUploadBytes then .refused 413 "file too large"
      else .next .sshTo
  | .sshTo => if world.connected then .next .writeRemoteFile else .refused 404 "server not found"
  | .writeRemoteFile =>
      match world.upload with
      | some error => .refused 502 s!"failed to upload the file to the server: {error}"
      | none => .next .insert
  | .insert => .next (.add restores.length)
  | .add restore => .answered restore

namespace Hand

def writes : Hand → Option Status
  | read _ => some .running
  | restoring => some .success
  | missing | failing => some .failed
  | _ => none

def written : Hand → Hand
  | read found => if found then restoring else missing
  | _ => ended

def raised : Hand → Hand
  | waiting => waiting
  | restoring => failing
  | _ => ended

def inHand : Hand → Bool
  | waiting | ended => false
  | _ => true

end Hand

namespace State

variable (s : State)

def move (i : Nat) (r : Request) (stage : Stage) : State :=
  { s with requests := s.requests.set i { r with stage := stage } }

def hand (j : Nat) (job : Job) (hand : Hand) : State :=
  { s with jobs := s.jobs.set j { job with hand := hand } }

end State

def effect (s : State) (r : Request) : Call → State
  | .insert => { s with restores := s.restores ++ [⟨r.databaseId, .queued⟩] }
  | .add restore => { s with jobs := s.jobs ++ [⟨restore, .waiting⟩] }
  | _ => s

def step (s : State) : Action → State
  | .request databaseId kind =>
      match s.databases[databaseId]? with
      | some status => { s with requests := s.requests ++ [⟨databaseId, status, kind, .next .restoreBlocked⟩] }
      | none => s
  | .next i world =>
      match s.requests[i]? with
      | some r =>
          match r.stage with
          | .next call => (effect s r call).move i r (perform s.restores r world call)
          | _ => s
      | none => s
  | .throws i =>
      match s.requests[i]? with
      | some r =>
          match r.stage with
          | .next _ => s.move i r .threw
          | _ => s
      | none => s
  | .setStatus databaseId status => { s with databases := s.databases.set databaseId status }
  | .take j =>
      match s.jobs[j]? with
      | some job => if job.hand = .waiting then s.hand j job .taken else s
      | none => s
  | .read j found =>
      match s.jobs[j]? with
      | some job =>
          if job.hand = .taken then s.hand j job (if (s.restores[job.restore]?).isSome then .read found else .ended) else s
      | none => s
  | .write j =>
      match s.jobs[j]? with
      | some job =>
          match job.hand.writes with
          | some status =>
              { s.hand j job job.hand.written with restores := s.restores.modify job.restore fun r => { r with status := status } }
          | none => s
      | none => s
  | .raise j =>
      match s.jobs[j]? with
      | some job => s.hand j job job.hand.raised
      | none => s
  | .die j =>
      match s.jobs[j]? with
      | some job => if job.hand.inHand then s.hand j job .waiting else s
      | none => s

def AtMostOne (restores : List Restore) : Prop :=
  ∀ (i j : Nat) (a b : Restore), restores[i]? = some a → restores[j]? = some b →
    a.databaseId = b.databaseId →
    a.active → b.active → i = j

def Idle (restores : List Restore) (databaseId : Nat) : Prop :=
  ∀ q ∈ restores, q.databaseId = databaseId → q.active = false

/-- A restore is inserted while its database is idle, and so is a job taken up again if its restore has ended. -/
def Calm (s : State) : Action → Prop
  | .next i _ => ∀ r, s.requests[i]? = some r → r.stage = .next .insert → Idle s.restores r.databaseId
  | .write j => ∀ job r, s.jobs[j]? = some job → job.hand.writes = some .running → s.restores[job.restore]? = some r →
      r.active ∨ Idle s.restores r.databaseId
  | _ => True

variable {restores : List Restore} {s : State}

theorem atMostOne_insert_iff (h : AtMostOne restores) (databaseId : Nat) :
    AtMostOne (restores ++ [⟨databaseId, .queued⟩]) ↔ Idle restores databaseId := by
  have hlast : (restores ++ [⟨databaseId, .queued⟩])[restores.length]? = some ⟨databaseId, .queued⟩ :=
    List.getElem?_concat_length
  constructor
  · intro h' q hq hdb
    obtain ⟨i, hi⟩ := List.mem_iff_getElem?.1 hq
    by_contra ha
    rw [Bool.not_eq_false] at ha
    have hlt := (List.getElem?_eq_some_iff.1 hi).1
    exact absurd (h' i restores.length q _ (Tables.snoc_eq hi) hlast hdb ha rfl) (Nat.ne_of_lt hlt)
  · intro hidle i j a b ha hb hdb haa hba
    rcases Tables.of_snoc ha with ha | ⟨rfl, rfl⟩ <;> rcases Tables.of_snoc hb with hb | ⟨rfl, rfl⟩
    · exact h i j a b ha hb hdb haa hba
    · rw [hidle a (List.mem_of_getElem? ha) hdb] at haa
      cases haa
    · rw [hidle b (List.mem_of_getElem? hb) hdb.symm] at hba
      cases hba
    · rfl

theorem AtMostOne.finish (h : AtMostOne restores) (k : Nat) {status : Status} (hs : status.active = false) :
    AtMostOne (restores.modify k fun r => { r with status := status }) := by
  have hactive (i : Nat) (b : Restore) (hb : (restores.modify k fun r => { r with status := status })[i]? = some b)
      (ha : b.active) : restores[i]? = some b := by
    obtain ⟨r, hr, rfl⟩ := Tables.of_modify hb
    by_cases hk : k = i
    · rw [if_pos hk, Restore.active, hs] at ha
      cases ha
    · rwa [if_neg hk]
  intro i j a b ha hb hdb haa hba
  exact h i j a b (hactive i a ha haa) (hactive j b hb hba) hdb haa hba

theorem atMostOne_start_iff (h : AtMostOne restores) (k : Nat) :
    AtMostOne (restores.modify k fun r => { r with status := .running }) ↔
      ∀ r, restores[k]? = some r → r.active ∨ Idle restores r.databaseId := by
  constructor
  · intro h' r hr
    rw [or_iff_not_imp_left]
    intro hn q hq hdb
    obtain ⟨i, hi⟩ := List.mem_iff_getElem?.1 hq
    by_contra ha
    rw [Bool.not_eq_false] at ha
    have hne : i ≠ k := by
      rintro rfl
      rw [hr] at hi
      exact hn (Option.some_inj.1 hi ▸ ha)
    refine hne (h' i k q { r with status := .running } ?_ ?_ hdb ha rfl)
    · rw [Tables.modify_eq hi, if_neg hne.symm]
    · rw [Tables.modify_eq hr, if_pos rfl]
  · intro hc i j a b ha hb hdb haa hba
    have hother (m : Nat) (q r : Restore) (hm : k ≠ m) (hq : restores[m]? = some q) (hr : restores[k]? = some r)
        (hdb : q.databaseId = r.databaseId) (ha : q.active) : False := by
      rcases hc r hr with hactive | hidle
      · exact hm (h k m r q hr hq hdb.symm hactive ha)
      · rw [hidle q (List.mem_of_getElem? hq) hdb] at ha
        cases ha
    obtain ⟨a', ha', rfl⟩ := Tables.of_modify ha
    obtain ⟨b', hb', rfl⟩ := Tables.of_modify hb
    by_cases hik : k = i <;> by_cases hjk : k = j
    · exact hik.symm.trans hjk
    · rw [if_pos hik, if_neg hjk] at hdb
      rw [if_neg hjk] at hba
      exact (hother j b' a' hjk hb' (hik ▸ ha') hdb.symm hba).elim
    · rw [if_neg hik, if_pos hjk] at hdb
      rw [if_neg hik] at haa
      exact (hother i a' b' hik ha' (hjk ▸ hb') hdb haa).elim
    · rw [if_neg hik, if_neg hjk] at hdb
      rw [if_neg hik] at haa
      rw [if_neg hjk] at hba
      exact h i j a' b' ha' hb' hdb haa hba

theorem effect_restores (s : State) (r : Request) {call : Call} (h : call ≠ .insert) :
    (effect s r call).restores = s.restores := by
  cases call with
  | insert => exact absurd rfl h
  | _ => rfl

theorem atMostOne_next_iff (h : AtMostOne s.restores) (i : Nat) (world : World) :
    AtMostOne (step s (.next i world)).restores ↔ Calm s (.next i world) := by
  rw [Calm]
  cases hr : s.requests[i]? with
  | none => simpa [step, hr] using h
  | some r =>
      simp only [Option.some.injEq, forall_eq']
      cases hstage : r.stage with
      | next call =>
          by_cases hcall : call = .insert
          · rw [hcall] at hstage ⊢
            simp only [step, hr, hstage, forall_const]
            exact atMostOne_insert_iff h r.databaseId
          · simp only [step, hr, hstage, State.move, effect_restores s r hcall, Stage.next.injEq, hcall,
              false_imp_iff, iff_true]
            exact h
      | refused | threw | answered => simpa [step, hr, hstage] using h

theorem Hand.writes_cases (hand : Hand) :
    hand.writes = none ∨ hand.writes = some .running ∨ ∃ status, hand.writes = some status ∧
      status.active = false := by
  cases hand with
  | read found => exact Or.inr (Or.inl rfl)
  | restoring | missing | failing => exact Or.inr (Or.inr ⟨_, rfl, rfl⟩)
  | waiting | taken | ended => exact Or.inl rfl

theorem atMostOne_write_iff (h : AtMostOne s.restores) (j : Nat) :
    AtMostOne (step s (.write j)).restores ↔ Calm s (.write j) := by
  have hcalm (hn : ∀ job, s.jobs[j]? = some job → job.hand.writes ≠ some .running) : Calm s (.write j) :=
    fun job _ hj hw => absurd hw (hn job hj)
  cases hj : s.jobs[j]? with
  | none =>
      refine iff_of_true ?_ (hcalm fun job hn => ?_)
      · simpa only [step, hj] using h
      · rw [hj] at hn
        cases hn
  | some job =>
      rcases job.hand.writes_cases with hw | hw | ⟨status, hw, hs⟩
      · refine iff_of_true ?_ (hcalm fun job' hj' => ?_)
        · simpa only [step, hj, hw] using h
        · rw [hj] at hj'
          rw [← Option.some_inj.1 hj', hw]
          exact fun hn => by cases hn
      · simp only [step, hj, hw]
        refine (atMostOne_start_iff h job.restore).trans
          ⟨fun hc job' r hj' _ hr => ?_, fun hc r hr => hc job r hj hw hr⟩
        rw [hj] at hj'
        rw [← Option.some_inj.1 hj'] at hr
        exact hc r hr
      · refine iff_of_true ?_ (hcalm fun job' hj' => ?_)
        · simpa only [step, hj, hw] using h.finish job.restore hs
        · rw [hj] at hj'
          rw [← Option.some_inj.1 hj', hw]
          rintro hn
          rw [Option.some_inj.1 hn] at hs
          cases hs

theorem atMostOne_step_iff (h : AtMostOne s.restores) (a : Action) :
    AtMostOne (step s a).restores ↔ Calm s a := by
  have hkept {s' : State} (hs : s'.restores = s.restores) : AtMostOne s'.restores ↔ True :=
    iff_true_intro (hs ▸ h)
  cases a with
  | next i world => exact atMostOne_next_iff h i world
  | write j => exact atMostOne_write_iff h j
  | setStatus databaseId status => exact hkept rfl
  | request | throws | take | read | raise | die =>
      refine hkept ?_
      rw [step]
      split <;> (try split) <;> rfl

end Yeah.Databases.Restores
