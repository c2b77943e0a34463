import Yeah.Attempt
import Yeah.Text.Space
import Yeah.Backup.InstanceSchedule

namespace Yeah.Backup.Instance

open Attempt

inductive Status
  | running
  | success
  | failed
  deriving DecidableEq

structure InstanceBackupSettings where
  enabled : Bool
  storageId : Option String
  hourUtc : Int
  retention : Int
  lastAt : Option Int
  lastStatus : Option Status
  lastError : Option String
  lastSizeBytes : Option Nat

def InstanceBackupSettings.schedule (s : InstanceBackupSettings) : InstanceBackupSchedule :=
  ⟨s.enabled, s.storageId, s.hourUtc, s.lastAt⟩

/-- The settings, the object under the key of the run, and whether the dump is staged on the
panel's host. -/
structure World where
  settings : InstanceBackupSettings
  object : Option (List UInt8)
  staged : Bool

structure Server where
  name : String
  teamId : Option String

/-- What the run finds: its clock (when it checks that it is due, and when it names its key), the team of
the storage, the panel's server, and the bytes that a dump has. -/
structure Config where
  force : Bool
  checkedAt : Int
  now : Int
  storage : Option String
  server : Option Server
  dump : List UInt8

def Config.key (c : Config) : String := instanceBackupKey c.now

/-- The dump command: `execStream` throws, or the channel is closed, with no exit code if the command was killed
or the connection is lost; `staged` says whether the staging file is there then (it is moved into place at the end). -/
inductive Dump
  | threw (message : String) (staged : Bool)
  | closed (code : Option Int) (staged : Bool) (output : String)

/-- `Number.parseInt(sizeOut.trim(), 10) || 0` of what `wc` prints, on either stream. -/
inductive Wc
  | threw (message : String)
  | printed (size : Nat)

/-- `uploadStream`: how far the dump is read before the stream ends or an error comes up, and in the second case
how much of it is in the bucket when the writer has ended again. -/
structure Sending where
  read : Nat
  error : Option String
  left : Option Nat

/-- `removeRemoteFile` is rejected when the connection is lost, and resolves if the file cannot be removed. -/
inductive Removal
  | threw (message : String)
  | ended (unlinkFails : Bool)

/-- What each awaited call of a run does; `none` is a call that does not throw. -/
structure Faults where
  selectStorage : Option String
  selectServer : Option String
  runningWrite : Option String
  connect : Option String
  dump : Dump
  wc : Wc
  makeClient : Option String
  openRead : Option String
  upload : Sending
  deleteFails : Bool
  removal : Removal
  listing : Except String (List String)
  connEnd : Option String
  successWrite : Option String
  failedWrite : Option String
  notify : Option String

def PANEL_INSTALL_DIR : String := "/opt/yeah"

def slice (n : Nat) (s : String) : String := String.ofList (s.toList.take n)

def trim (s : String) : String := String.ofList (Text.strip (fun c => Text.isSpace c.toNat) s.toList)

namespace World

variable (w : World)

def setSettings (g : InstanceBackupSettings → InstanceBackupSettings) : World :=
  { w with settings := g w.settings }

def setObject (o : Option (List UInt8)) : World := { w with object := o }

def setStaged (here : Bool) : World := { w with staged := here }

end World

section Source

variable (c : Config) (f : Faults)

def dumpStep (server : Server) (w : World) : Attempt World :=
  match f.dump with
  | .threw m staged => .threw m (w.setStaged staged)
  | .closed code staged output =>
      -- `exitCode: code ?? 0`
      if code.getD 0 ≠ 0 then
        .threw s!"the database dump failed on {server.name} (is the panel installed in {PANEL_INSTALL_DIR}?) {slice 200 (trim output)}"
          (w.setStaged staged)
      else .done (w.setStaged staged)

def sizeStep (w : World) : Attempt World :=
  match f.wc with
  | .threw m => .threw m w
  | .printed _ => .done w

def sizeBytes : Nat :=
  match f.wc with
  | .threw _ => 0
  | .printed size => size

def openRemoteReadStream (w : World) : Attempt World :=
  if w.staged then await f.openRead id w else .threw "No such file" w

def uploadStream (w : World) : Attempt World :=
  match f.upload.error with
  | none => .done (w.setObject (some (c.dump.take f.upload.read)))
  | some m => .threw m (w.setObject (if f.deleteFails then f.upload.left.map c.dump.take else none))

def transfer (w : World) : Attempt World :=
  ((openRemoteReadStream f w).andThen (uploadStream c f)).andThen fun w =>
    let sent := (c.dump.take f.upload.read).length
    if 0 < sizeBytes f ∧ sent ≠ sizeBytes f then
      .threw s!"the upload sent {sent} bytes but the dump has {sizeBytes f}" w
    else .done w

def removeRemoteFile (w : World) : Attempt World :=
  match f.removal with
  | .threw m => .threw m w
  | .ended unlinkFails => .done (w.setStaged (w.staged && unlinkFails))

/-- Of the objects that it deletes only the run's own matters here. -/
def retentionStep (w : World) : Attempt World :=
  match f.listing with
  | .error m => .threw m w
  | .ok keys =>
      if c.key ∈ instanceBackupsToDelete keys w.settings.retention ∧
        f.deleteFails = false then .done (w.setObject none) else .done w

def writeSuccess (w : World) : World :=
  w.setSettings fun s =>
    { s with lastAt := some c.now, lastStatus := some .success, lastError := none, lastSizeBytes := some (sizeBytes f) }

def session (server : Server) (w : World) : Attempt World :=
  ((((dumpStep f server w).andThen
    (sizeStep f)).andThen
    (await f.makeClient id)).andThen
    fun w => (transfer c f w).ensure (removeRemoteFile f)).andThen
    (retentionStep c f)

def record (w : World) : Attempt World :=
  match c.storage, c.server with
  | none, _ => .threw "the backup destination no longer exists: choose another one in Settings" w
  | some _, none => .threw "no server hosts the panel, so there is no database to dump from" w
  | some _, some server =>
      ((await f.connect id w).andThen fun w => (session c f server w).ensure (await f.connEnd id)).andThen
        (await f.successWrite (writeSuccess c f))

def notifyTeamId : Option String := c.storage <|> c.server.bind (·.teamId)

def handler (message : String) (w : World) : Attempt World :=
  (await f.failedWrite (fun w => w.setSettings fun s =>
    { s with lastStatus := some .failed, lastError := some (slice 500 message) }) w).andThen fun w =>
      if (notifyTeamId c).isSome then await f.notify id w else .done w

def begin (w : World) : Attempt World :=
  ((await f.selectStorage id w).andThen (await f.selectServer id)).andThen
    (await f.runningWrite fun w => w.setSettings fun s => { s with lastStatus := some .running, lastError := none })

def instanceBackup (w : World) : Attempt World :=
  if isInstanceBackupDue c.checkedAt w.settings.schedule c.force then
    (begin f w).andThen fun w => (record c f w).rescue (handler c f)
  else .done w

end Source

def fresh (settings : InstanceBackupSettings) : World := ⟨settings, none, false⟩

/-- What the settings say after a run is what the bucket and the host hold. -/
structure Truthful (c : Config) (w : World) : Prop where
  status : w.settings.lastStatus = some .success ↔ w.object = some c.dump
  last : w.settings.lastStatus = some .success → w.settings.lastAt = some c.now ∧
    ∀ tick, tick / 3600000 = c.now / 3600000 → isInstanceBackupDue tick w.settings.schedule false = false
  clean : w.settings.lastStatus ≠ some .success → (∀ o, w.object = some o → o = c.dump) ∧ w.staged = false

/-! ### When it is -/

section Conditions

variable (c : Config) (f : Faults) (settings : InstanceBackupSettings)

def Begins : Prop := f.selectStorage = none ∧ f.selectServer = none ∧ f.runningWrite = none

def Connects : Prop := c.storage ≠ none ∧ c.server ≠ none ∧ f.connect = none

def Staged : Prop :=
  match f.dump with
  | .threw _ staged => staged = true
  | .closed _ staged _ => staged = true

def Dumps : Prop :=
  (∃ code staged output, f.dump = .closed code staged output ∧ code.getD 0 = 0) ∧
      (∃ size, f.wc = .printed size) ∧
    f.makeClient = none

def Sends : Prop :=
  Staged f ∧ f.openRead = none ∧ f.upload.error = none ∧
    (0 < sizeBytes f → (c.dump.take f.upload.read).length = sizeBytes f)

def SendsNothing : Prop :=
  ¬ Staged f ∨ f.openRead ≠ none ∨ f.upload.error ≠ none ∧ (f.deleteFails = false ∨ f.upload.left = none)

def Removes : Prop := ¬ Staged f ∨ f.removal = .ended false

def Transfers : Prop :=
  Sends c f ∧ (∃ unlinkFails, f.removal = .ended unlinkFails) ∧ ∃ keys, f.listing = .ok keys

def RemovesOwn : Prop :=
  ∃ keys, f.listing = .ok keys ∧ c.key ∈ instanceBackupsToDelete keys settings.retention ∧
    f.deleteFails = false

def Concludes : Prop := f.connEnd = none ∧ f.successWrite = none

/-- What has to hold of a run, by how far it comes. -/
structure Meets : Prop where
  begin : ¬ Begins f → settings.lastStatus ≠ some .success
  dump : Begins f → Connects c f → ¬ Dumps f → ¬ Staged f
  transfer : Begins f → Connects c f → Dumps f → ¬ Transfers c f → SendsNothing f ∧ Removes f
  conclude : Begins f → Connects c f → Dumps f → Transfers c f → ¬ Concludes f →
    RemovesOwn c f settings ∧ Removes f
  success : Begins f → Connects c f → Dumps f → Transfers c f → Concludes f →
    c.dump.length ≤ f.upload.read ∧ ¬ RemovesOwn c f settings

end Conditions

variable {c : Config} {f : Faults} {settings : InstanceBackupSettings} {w : World} {P R : World → Prop}

instance : Decidable (Staged f) := by
  unfold Staged
  split <;> infer_instance

/-- A world of the run in which the settings are as they were when it began. -/
def Holds (settings : InstanceBackupSettings) (object : Option (List UInt8)) (staged : Bool)
    (w : World) : Prop :=
  w = ⟨settings, object, staged⟩

theorem session_not_dumps {server : Server} (h : ¬ Dumps f) :
    (session c f server (fresh settings)).Ends (fun _ => False) (Holds settings none (decide (Staged f))) := by
  have hstaged : ∀ here : Bool, (Staged f ↔ here = true) →
    Holds settings none (decide (Staged f)) ((fresh settings).setStaged here) := by
    intro here hh
    have hd : decide (Staged f) = here := by simp [hh]
    rw [Holds, hd]
    rfl
  have hrest : (((dumpStep f server (fresh settings)).andThen (sizeStep f)).andThen (await f.makeClient id)).Ends
      (fun _ => False) (Holds settings none (decide (Staged f))) := by
    cases hd : f.dump with
    | threw m staged =>
        simp only [dumpStep, hd, threw_andThen, ends_threw]
        exact hstaged staged (by simp [Staged, hd])
    | closed code staged output =>
        have hw := hstaged staged (by simp [Staged, hd])
        by_cases hc : code.getD 0 = 0
        · cases hz : f.wc with
          | threw m => simpa [dumpStep, hd, hc, sizeStep, hz] using hw
          | printed size =>
              have hm : f.makeClient ≠ none :=
                fun hm => h ⟨⟨code, staged, output, hd, hc⟩, ⟨size, hz⟩, hm⟩
              obtain ⟨m, hm⟩ := Option.ne_none_iff_exists'.mp hm
              simpa [dumpStep, hd, hc, sizeStep, hz, hm] using hw
        · simpa [dumpStep, hd, hc] using hw
  exact hrest.andThen_of_threw.andThen_of_threw

theorem session_dumps {server : Server} (h : Dumps f) :
    session c f server (fresh settings) =
      ((transfer c f ⟨settings, none, decide (Staged f)⟩).ensure (removeRemoteFile f)).andThen (retentionStep c f) := by
  obtain ⟨⟨code, staged, output, hd, hc⟩, ⟨size, hz⟩, hm⟩ := h
  have hs : decide (Staged f) = staged := by simp [Staged, hd]
  rw [hs]
  simp [session, dumpStep, hd, hc, sizeStep, hz, hm, fresh, World.setStaged]

def uploaded (c : Config) (f : Faults) : Option (List UInt8) :=
  if ¬ Staged f ∨ f.openRead ≠ none then none
  else if f.upload.error = none then some (c.dump.take f.upload.read)
  else if f.deleteFails then f.upload.left.map c.dump.take
  else none

theorem uploaded_eq_none_iff : uploaded c f = none ↔ SendsNothing f := by
  by_cases hs : Staged f <;> by_cases ho : f.openRead = none <;> by_cases he : f.upload.error = none <;>
    cases hd : f.deleteFails <;> simp [uploaded, SendsNothing, hs, ho, he, hd]

theorem uploaded_of_sends (h : Sends c f) : uploaded c f = some (c.dump.take f.upload.read) := by
  simp [uploaded, h.1, h.2.1, h.2.2.1]

theorem transfer_sends (h : Sends c f) :
    transfer c f ⟨settings, none, decide (Staged f)⟩ = .done ⟨settings, uploaded c f, decide (Staged f)⟩ := by
  rw [uploaded_of_sends h]
  obtain ⟨hs, ho, he, hsize⟩ := h
  have hn : ¬ (0 < sizeBytes f ∧ (c.dump.take f.upload.read).length ≠ sizeBytes f) :=
    fun hn => hn.2 (hsize hn.1)
  simp only [transfer, openRemoteReadStream, hs, ho, uploadStream, he, decide_true, if_true, await_none,
    done_andThen, if_neg hn]
  rfl

variable (settings) in
theorem transfer_not_sends (h : ¬ Sends c f) :
    (transfer c f ⟨settings, none, decide (Staged f)⟩).Ends (fun _ => False)
      (Holds settings (uploaded c f) (decide (Staged f))) := by
  by_cases hs : Staged f
  · cases ho : f.openRead with
    | some m => simp [transfer, openRemoteReadStream, uploaded, Holds, hs, ho]
    | none =>
        cases he : f.upload.error with
        | some m => simp [transfer, openRemoteReadStream, uploadStream, uploaded, Holds, World.setObject, hs, ho, he]
        | none =>
            have hsize : 0 < sizeBytes f ∧ (c.dump.take f.upload.read).length ≠ sizeBytes f := by
              by_contra hn
              exact h ⟨hs, ho, he, fun hp => by_contra fun hne => hn ⟨hp, hne⟩⟩
            simp only [transfer, openRemoteReadStream, uploadStream, uploaded, hs, ho, he, decide_true, if_true, await_none,
              done_andThen, if_pos hsize, ends_threw]
            simp [Holds, World.setObject]
  · simp [transfer, openRemoteReadStream, uploaded, Holds, hs]

def stagedAfter (f : Faults) : Bool :=
  match f.removal with
  | .threw _ => decide (Staged f)
  | .ended unlinkFails => decide (Staged f) && unlinkFails

theorem stagedAfter_eq_false_iff : stagedAfter f = false ↔ Removes f := by
  cases hr : f.removal <;> by_cases hs : Staged f <;> simp [stagedAfter, Removes, hr, hs]

theorem removeRemoteFile_ends (object : Option (List UInt8)) :
    (removeRemoteFile f ⟨settings, object, decide (Staged f)⟩).Ends (Holds settings object (stagedAfter f))
      (Holds settings object (stagedAfter f)) := by
  cases hr : f.removal <;> simp [removeRemoteFile, stagedAfter, hr, Holds, World.setStaged]

theorem session_not_transfers {server : Server} (h : Dumps f) (ht : ¬ Transfers c f) :
    (session c f server (fresh settings)).Ends (fun _ => False) (Holds settings (uploaded c f) (stagedAfter f)) := by
  rw [session_dumps h]
  by_cases hs : Sends c f
  · rw [transfer_sends hs]
    cases hr : f.removal with
    | threw m => simp [Attempt.ensure, removeRemoteFile, stagedAfter, hr, Holds]
    | ended unlinkFails =>
        cases hl : f.listing with
        | error m => simp [Attempt.ensure, removeRemoteFile, stagedAfter, hr, Holds, retentionStep, hl, World.setStaged]
        | ok keys => exact absurd ⟨hs, ⟨unlinkFails, hr⟩, keys, hl⟩ ht
  · have hu := transfer_not_sends settings hs
    have hboth : ((transfer c f ⟨settings, none, decide (Staged f)⟩).ensure (removeRemoteFile f)).Ends
        (fun _ => False) (Holds settings (uploaded c f) (stagedAfter f)) := by
      rw [ends_ensure_iff]
      refine hu.imp (fun _ hw => hw.elim) fun w hw => ?_
      rw [show w = _ from hw]
      exact removeRemoteFile_ends _
    exact hboth.andThen_of_threw

instance : Decidable (RemovesOwn c f settings) :=
  match h : f.listing with
  | .error _ => isFalse (by simp [RemovesOwn, h])
  | .ok keys =>
      decidable_of_iff (c.key ∈ instanceBackupsToDelete keys settings.retention ∧ f.deleteFails = false) (by simp [RemovesOwn, h])

def kept (c : Config) (f : Faults) (settings : InstanceBackupSettings) : Option (List UInt8) :=
  if RemovesOwn c f settings then none else some (c.dump.take f.upload.read)

theorem kept_eq_none_iff : kept c f settings = none ↔ RemovesOwn c f settings := by
  by_cases h : RemovesOwn c f settings <;> simp [kept, h]

theorem kept_eq_dump_iff :
    kept c f settings = some c.dump ↔ c.dump.length ≤ f.upload.read ∧ ¬ RemovesOwn c f settings := by
  have htake : c.dump.take f.upload.read = c.dump ↔ c.dump.length ≤ f.upload.read := by
    refine ⟨fun h => ?_, List.take_of_length_le⟩
    have hl := congrArg List.length h
    rw [List.length_take] at hl
    omega
  by_cases h : RemovesOwn c f settings <;> simp [kept, h, htake]

theorem session_transfers {server : Server} (h : Dumps f) (ht : Transfers c f) :
    session c f server (fresh settings) = .done ⟨settings, kept c f settings, stagedAfter f⟩ := by
  obtain ⟨hs, ⟨unlinkFails, hr⟩, keys, hl⟩ := ht
  rw [session_dumps h, transfer_sends hs, uploaded_of_sends hs]
  have howns : RemovesOwn c f settings ↔
    c.key ∈ instanceBackupsToDelete keys settings.retention ∧ f.deleteFails = false := by
    simp [RemovesOwn, hl]
  simp only [Attempt.ensure, removeRemoteFile, hr, done_andThen, retentionStep, hl, stagedAfter,
    World.setStaged]
  by_cases ho : RemovesOwn c f settings
  · rw [if_pos (howns.mp ho)]
    simp [kept, ho, World.setObject]
  · rw [if_neg (fun hn => ho (howns.mpr hn))]
    simp [kept, ho]

/-! ### The end of a run -/

theorem handler_state (m : String) (w : World) :
    (handler c f m w).state.object = w.object ∧ (handler c f m w).state.staged = w.staged ∧
      (w.settings.lastStatus = some .running → (handler c f m w).state.settings.lastStatus ≠ some .success) := by
  have hdone : ∀ w : World, (if (notifyTeamId c).isSome then await f.notify id w else .done w).state = w := by
    intro w
    cases f.notify <;> split_ifs <;> rfl
  cases hf : f.failedWrite with
  | some e =>
      refine ⟨by simp [handler, hf], by simp [handler, hf], fun hw => ?_⟩
      simp [handler, hf, hw]
  | none => simp [handler, hf, hdone, World.setSettings]

/-- A run that fails is reported as such, so it must leave nothing. -/
theorem truthful_handler {m : String} (hw : w.settings.lastStatus = some .running) :
    Truthful c (handler c f m w).state ↔ w.object = none ∧ w.staged = false := by
  obtain ⟨hobject, hstaged, hstatus⟩ := handler_state (c := c) (f := f) m w
  have hne := hstatus hw
  constructor
  · intro h
    obtain ⟨hpart, hclean⟩ := h.clean hne
    rw [hobject] at hpart
    rw [hstaged] at hclean
    refine ⟨?_, hclean⟩
    cases ho : w.object with
    | none => rfl
    | some o =>
        have hfull := h.status.mpr (by rw [hobject, ho, hpart o ho])
        exact absurd hfull hne
  · rintro ⟨ho, hs⟩
    refine ⟨?_, fun h => absurd h hne, fun _ => ?_⟩
    · rw [hobject, ho]
      simp [hne]
    · rw [hobject, hstaged, ho, hs]
      simp

theorem truthful_writeSuccess : Truthful c (writeSuccess c f w) ↔ w.object = some c.dump := by
  constructor
  · intro h
    exact h.status.mp rfl
  · intro h
    exact ⟨by simp [writeSuccess, World.setSettings, h], fun _ => ⟨rfl, fun tick ht => not_due_within_hour rfl ht⟩,
      fun hne => absurd rfl hne⟩

theorem begin_begins (h : Begins f) (settings : InstanceBackupSettings) :
    begin f (fresh settings) = .done (fresh { settings with lastStatus := some .running, lastError := none }) := by
  simp [begin, h.1, h.2.1, h.2.2, fresh, World.setSettings]

theorem begin_not_begins (h : ¬ Begins f) (settings : InstanceBackupSettings) :
    (begin f (fresh settings)).Ends (fun _ => False) (Holds settings none false) := by
  cases hs : f.selectStorage with
  | some m => simp [begin, hs, Holds, fresh]
  | none =>
      cases hv : f.selectServer with
      | some m => simp [begin, hs, hv, Holds, fresh]
      | none =>
          obtain ⟨m, hr⟩ := Option.ne_none_iff_exists'.mp fun hr => h ⟨hs, hv, hr⟩
          simp [begin, hs, hv, hr, Holds, fresh]

theorem record_not_connects (h : ¬ Connects c f) :
    (record c f (fresh settings)).Ends (fun _ => False) (Holds settings none false) := by
  cases hs : c.storage with
  | none => simp [record, hs, Holds, fresh]
  | some storage =>
      cases hv : c.server with
      | none => simp [record, hs, hv, Holds, fresh]
      | some server =>
          have hc : f.connect ≠ none := fun hc => h ⟨by simp [hs], by simp [hv], hc⟩
          obtain ⟨m, hc⟩ := Option.ne_none_iff_exists'.mp hc
          simp [record, hs, hv, hc, Holds, fresh]

variable (settings) in
theorem record_connects (h : Connects c f) :
    ∃ server, record c f (fresh settings) =
      ((session c f server (fresh settings)).ensure (await f.connEnd id)).andThen (await f.successWrite (writeSuccess c f)) := by
  obtain ⟨hs, hv, hc⟩ := h
  obtain ⟨storage, hs⟩ := Option.ne_none_iff_exists'.mp hs
  obtain ⟨server, hv⟩ := Option.ne_none_iff_exists'.mp hv
  exact ⟨server, by simp [record, hs, hv, hc]⟩

/-- A session that throws fails the run, whatever `conn.end` does. -/
theorem record_session_threw (hc : Connects c f) {object : Option (List UInt8)} {staged : Bool}
    (h : ∀ server, (session c f server (fresh settings)).Ends (fun _ => False) (Holds settings object staged)) :
    (record c f (fresh settings)).Ends (fun _ => False) (Holds settings object staged) := by
  obtain ⟨server, hr⟩ := record_connects settings hc
  rw [hr]
  have hend : ((session c f server (fresh settings)).ensure (await f.connEnd id)).Ends (fun _ => False)
      (Holds settings object staged) := by
    rw [ends_ensure_iff]
    refine (h server).imp (fun _ hw => hw.elim) fun w hw => ?_
    rw [ends_await_iff]
    split_ifs <;> exact hw
  exact hend.andThen_of_threw

theorem record_not_concludes (hc : Connects c f) (hd : Dumps f) (ht : Transfers c f) (h : ¬ Concludes f) :
    (record c f (fresh settings)).Ends (fun _ => False) (Holds settings (kept c f settings) (stagedAfter f)) := by
  obtain ⟨server, hr⟩ := record_connects settings hc
  rw [hr, session_transfers hd ht]
  cases he : f.connEnd with
  | some m => simp [Attempt.ensure, Holds]
  | none =>
      obtain ⟨m, hw⟩ := Option.ne_none_iff_exists'.mp fun hw => h ⟨he, hw⟩
      simp [Attempt.ensure, hw, Holds]

theorem record_concludes (hc : Connects c f) (hd : Dumps f) (ht : Transfers c f) (h : Concludes f) :
    record c f (fresh settings) = .done (writeSuccess c f ⟨settings, kept c f settings, stagedAfter f⟩) := by
  obtain ⟨server, hr⟩ := record_connects settings hc
  rw [hr, session_transfers hd ht, h.1, h.2]
  rfl

theorem truthful_of_threw {object : Option (List UInt8)} {staged : Bool}
    (hs : settings.lastStatus = some .running)
    (h : (record c f (fresh settings)).Ends (fun _ => False) (Holds settings object staged)) :
    Truthful c ((record c f (fresh settings)).rescue (handler c f)).state ↔
      object = none ∧ staged = false := by
  obtain ⟨m, w, hr, hw⟩ := h.exists_threw
  rw [hr, threw_rescue, show w = _ from hw]
  exact truthful_handler hs

theorem truthful_record_iff (hs : settings.lastStatus = some .running) :
    Truthful c ((record c f (fresh settings)).rescue (handler c f)).state ↔
      (Connects c f → ¬ Dumps f → ¬ Staged f) ∧
      (Connects c f → Dumps f → ¬ Transfers c f → SendsNothing f ∧ Removes f) ∧
      (Connects c f → Dumps f → Transfers c f → ¬ Concludes f → RemovesOwn c f settings ∧ Removes f) ∧
      (Connects c f → Dumps f → Transfers c f → Concludes f → c.dump.length ≤ f.upload.read ∧ ¬ RemovesOwn c f settings) := by
  by_cases hc : Connects c f
  swap
  · simp [truthful_of_threw hs (record_not_connects hc), hc]
  by_cases hd : Dumps f
  swap
  · simp [truthful_of_threw hs (record_session_threw hc fun _ => session_not_dumps hd), hc, hd]
  by_cases ht : Transfers c f
  swap
  · rw [truthful_of_threw hs (record_session_threw hc fun _ => session_not_transfers hd ht), uploaded_eq_none_iff,
      stagedAfter_eq_false_iff]
    simp [hc, hd, ht]
  by_cases he : Concludes f
  · rw [record_concludes hc hd ht he, done_rescue, state_done, truthful_writeSuccess, kept_eq_dump_iff]
    simp [hc, hd, ht, he]
  · rw [truthful_of_threw hs (record_not_concludes hc hd ht he), kept_eq_none_iff,
      stagedAfter_eq_false_iff]
    simp [hc, hd, ht, he]

/-- For every settings and every way the calls of a run may end: the run tells the truth exactly in the cases of `Meets`. -/
theorem instanceBackup_truthful_iff (c : Config) (f : Faults) (settings : InstanceBackupSettings)
    (hdue : isInstanceBackupDue c.checkedAt settings.schedule c.force = true) :
    Truthful c (instanceBackup c f (fresh settings)).state ↔ Meets c f settings := by
  have hrun : instanceBackup c f (fresh settings) =
      (begin f (fresh settings)).andThen fun w => (record c f w).rescue (handler c f) := if_pos hdue
  rw [hrun]
  by_cases hb : Begins f
  · rw [begin_begins hb, done_andThen, truthful_record_iff rfl]
    constructor
    · rintro ⟨hdump, htransfer, hconclude, hsuccess⟩
      exact ⟨fun h => absurd hb h, fun _ => hdump, fun _ => htransfer, fun _ => hconclude,
        fun _ => hsuccess⟩
    · rintro ⟨-, hdump, htransfer, hconclude, hsuccess⟩
      exact ⟨hdump hb, htransfer hb, hconclude hb, hsuccess hb⟩
  · obtain ⟨m, w, hw, hh⟩ := (begin_not_begins hb settings).exists_threw
    rw [hw, threw_andThen, state_threw, show w = _ from hh]
    constructor
    · intro h
      refine ⟨fun _ hs => ?_, fun h' => absurd h' hb, fun h' => absurd h' hb, fun h' => absurd h' hb,
        fun h' => absurd h' hb⟩
      have := h.status.mp hs
      cases this
    · intro h
      have hs := h.begin hb
      exact ⟨by simp [hs], fun h' => absurd h' hs, fun _ => by simp⟩

def daily : InstanceBackupSettings := ⟨true, some "s3", 3, 7, none, none, none, none⟩

def nightly : Config :=
  ⟨false, 1793502300000, 1793502301000, some "team", some ⟨"vps", some "team"⟩, [31, 139]⟩

/-- `wc` prints a warning before the size, which is not read then; the upload is complete all the same. -/
def unread : Faults :=
  ⟨none, none, none, none, .closed (some 0) true "", .printed 0, none, none, ⟨2, none, none⟩, false, .ended false, .ok [],
    none, none, none, none⟩

def listingThrows : Faults := { unread with listing := .error "SlowDown" }

theorem instanceBackup_truthful_unread :
    Truthful nightly (instanceBackup nightly unread (fresh daily)).state ↔ Meets nightly unread daily :=
  instanceBackup_truthful_iff nightly unread daily (by decide)

/-- The backup is in the bucket, and the run is reported as failed. -/
theorem stored_backup_failed :
    ¬ Truthful nightly (instanceBackup nightly listingThrows (fresh daily)).state := by
  intro h
  have hstored : (instanceBackup nightly listingThrows (fresh daily)).state.object = some nightly.dump := by
    decide
  have hs := h.status.mpr hstored
  exact absurd hs (by decide)

end Yeah.Backup.Instance
