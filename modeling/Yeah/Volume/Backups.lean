import Yeah.Backup.Place
import Yeah.Runs
import Yeah.Text.Stamp
import Mathlib.Data.List.Sort
import Mathlib.Logic.Function.Basic

namespace Yeah.Volume.Backups

open Runs Yeah.Backup

inductive OwnerType
  | application
  | service
  deriving DecidableEq

inductive Operation
  | backup
  | restore
  deriving DecidableEq

inductive Status
  | queued
  | running
  | success
  | failed
  deriving DecidableEq

/-- A row of `volume_backups`. -/
structure Row where
  id : String
  ownerType : OwnerType
  ownerId : String
  volumeId : Option String
  label : String
  operation : Operation
  status : Status
  s3StorageId : Option String
  filePath : Option String
  sizeBytes : Option Nat
  sourceBackupId : Option String
  createdAt : Nat
  deriving DecidableEq

/-- The rows, the storages, and which backup's archive is at a place. Time only moves
forward: jobs run one after the other. -/
structure State where
  serverId : String → String
  storages : List String
  rows : List Row
  archives : Place → Option String
  clock : Nat

/-- How a job ends. A backup that got its archive can still throw in the retention,
after `retained` of the old archives went. -/
inductive Ending
  | failed
  | finished (sizeBytes retained : Nat) (threw : Bool)

inductive Action
  | createStorage (id : String)
  | deleteStorage (id : String)
  | create (id : String) (ownerType : OwnerType) (ownerId : String) (volumeId : Option String)
      (label : String) (storageId : Option String) (now : Nat)
  | createRestore (id sourceId : String) (now : Nat)
  | run (id : String) (now : Nat) (ending : Ending)
  | download (id : String)
  | delete (id : String)

def keepVolumeBackups : Nat := 5

def volumeBackupsDir (ownerId : String) : String := "/opt/yeah-backups/volumes/" ++ ownerId

def sanitize (key : String) : String :=
  String.ofList (key.toList.flatMap fun c =>
    if c.isAlphanum ∨ c = '_' ∨ c = '-' then [c] else if c.toNat < 0x10000 then ['_'] else ['_', '_'])

/-- The part of an archive's name that tells the volume. -/
def archiveStem (b : Row) : String :=
  match b.ownerType with
  | .application => String.ofList ((b.volumeId.getD "").toList.take 8)
  | .service => String.ofList ((sanitize b.label).toList.take 40)

def archivePath (b : Row) (now : Nat) : String :=
  Text.stamped (volumeBackupsDir b.ownerId ++ "/vol-" ++ archiveStem b) now ".tar.gz"

def find (s : State) (id : String) : Option Row := s.rows.find? (·.id = id)

def locate (s : State) (b : Row) : Option Place :=
  access s.storages (s.serverId b.ownerId) b.s3StorageId b.filePath

def volumeBackupDownload (s : State) (b : Row) : Option Place := locate s b

/-- Only a backup row owns a file. -/
def removeVolumeBackupFile (s : State) (b : Row) : Option Place :=
  if b.operation ≠ .backup then none else locate s b

def restoreArchive (s : State) (src : Row) : Option Place := locate s src

def retentionFile (s : State) (old : Row) : Option Place := locate s old

/-- The backup that a restore reads. -/
def sourceRow (s : State) (b : Row) : Option Row :=
  (b.sourceBackupId.bind (find s)).filter fun src => src.ownerId = b.ownerId ∧ src.filePath.isSome

def deleteFile (s : State) (p : Option Place) : State :=
  match p with
  | none => s
  | some p => { s with archives := Function.update s.archives p none }

/-- The file first, then the row. -/
def deleteBackup (s : State) (b : Row) (p : Option Place) : State :=
  let t := deleteFile s p
  { t with rows := t.rows.filter (·.id ≠ b.id) }

def sameVolume (b old : Row) : Bool :=
  match b.ownerType with
  | .application => old.volumeId.isSome && old.volumeId == b.volumeId
  | .service => old.label == b.label

def expired (s : State) (b : Row) : List Row :=
  let rows := (s.rows.filter fun old =>
    old.ownerId = b.ownerId ∧ sameVolume b old ∧ old.operation = .backup ∧ old.status = .success).insertionSort
      fun x y => y.createdAt ≤ x.createdAt
  rows.drop keepVolumeBackups

def retain (s : State) (old : List Row) : State :=
  old.foldl (fun u b => deleteBackup u b (retentionFile u b)) s

def setRow (s : State) (id : String) (g : Row → Row) : State :=
  { s with rows := s.rows.map fun b => if b.id = id then g b else b }

def Row.fail (b : Row) : Row := { b with status := .failed }

def Row.succeed (filePath : Option String) (b : Row) : Row :=
  { b with status := .success, filePath := filePath }

def Row.archive (path : String) (sizeBytes : Nat) (b : Row) : Row :=
  { b.succeed (some path) with sizeBytes := some sizeBytes }

/-- The archive is written on the owner's server, whatever destination the row names. -/
def archived (s : State) (b : Row) (now sizeBytes : Nat) : State :=
  let t := setRow s b.id (Row.archive (archivePath b now) sizeBytes)
  { t with archives := Function.update t.archives (.file (t.serverId b.ownerId) (archivePath b now)) (some b.id) }

def runBackup (s : State) (b : Row) (now : Nat) : Ending → State
  | .failed => setRow s b.id Row.fail
  | .finished sizeBytes retained threw =>
      let t := archived s b now sizeBytes
      let u := retain t ((expired t b).take retained)
      if threw then setRow u b.id Row.fail else u

def runRestore (s : State) (b : Row) : Ending → State
  | .failed => setRow s b.id Row.fail
  | .finished _ _ _ =>
      match (sourceRow s b).filter fun src => (restoreArchive s src).isSome with
      | none => setRow s b.id Row.fail
      | some src => setRow s b.id (Row.succeed src.filePath)

def busy (s : State) (ownerType : OwnerType) (ownerId : String) (volumeId : Option String)
    (label : String) : Bool :=
  let rows := (s.rows.filter fun b =>
    match ownerType with
    | .application => b.ownerId = ownerId ∧ b.volumeId = volumeId
    | .service => b.ownerType = .service ∧ b.ownerId = ownerId ∧ b.label = label).insertionSort
      fun x y => y.createdAt ≤ x.createdAt
  match rows with
  | [] => false
  | last :: _ => last.status = .queued ∨ last.status = .running

def step (s : State) : Action → State
  | .createStorage id => { s with storages := id :: s.storages }
  | .deleteStorage id =>
      { s with
        storages := s.storages.filter (· ≠ id)
        rows := s.rows.map fun b => if b.s3StorageId = some id then { b with s3StorageId := none } else b }
  | .create id ownerType ownerId volumeId label storageId now =>
      if (find s id).isSome ∨ busy s ownerType ownerId volumeId label ∨
        ¬ ∀ st ∈ storageId, st ∈ s.storages then s
      else
        { s with rows := ⟨id, ownerType, ownerId, volumeId, label, .backup, .queued, storageId, none, none, none, now⟩ :: s.rows }
  | .createRestore id sourceId now =>
      match find s sourceId with
      | none => s
      | some src =>
          if (find s id).isSome ∨ src.operation ≠ .backup ∨ src.status ≠ .success ∨
            src.filePath = none then s
          else
            { s with
              rows :=
                ⟨id, src.ownerType, src.ownerId, src.volumeId, src.label, .restore, .queued, none, none, none,
                some sourceId, now⟩ :: s.rows }
  | .run id now ending =>
      match find s id with
      | none => s
      | some b =>
          if b.status ≠ .queued ∨ now ≤ s.clock then s
          else
            let t := { s with clock := now }
            match b.operation with
            | .backup => runBackup t b now ending
            | .restore => runRestore t b ending
  | .download _ => s
  | .delete id =>
      match find s id with
      | none => s
      | some b => deleteBackup s b (removeVolumeBackupFile s b)

def Row.Kept (b : Row) : Prop := b.operation = .backup ∧ b.status = .success

instance (b : Row) : Decidable b.Kept := inferInstanceAs (Decidable (_ ∧ _))

/-- The archive is where the row says, and all four consumers of the row go there. -/
def RowGood (s : State) (b : Row) : Prop :=
  ∃ f, b.filePath = some f ∧
    let p := denote (s.serverId b.ownerId) b.s3StorageId f
    s.archives p = some b.id ∧ volumeBackupDownload s b = some p ∧ restoreArchive s b = some p ∧
      removeVolumeBackupFile s b = some p ∧ retentionFile s b = some p

def Good (s : State) : Prop := ∀ b ∈ s.rows, b.Kept → RowGood s b

/-- What holds in every reachable state: the archive of a backup is on its owner's server,
under a path that no other backup has, and no bucket holds one. -/
structure Base (s : State) : Prop where
  nodup : (s.rows.map (·.id)).Nodup
  objects : ∀ storage key, s.archives (.object storage key) = none
  written : ∀ b ∈ s.rows, b.operation = .backup → ∀ f, b.filePath = some f →
    s.archives (.file (s.serverId b.ownerId) f) = some b.id
  stamp : ∀ b ∈ s.rows, b.operation = .backup → ∀ f, b.filePath = some f →
    ∃ ts ≤ s.clock, f = archivePath b ts
  recorded : ∀ b ∈ s.rows, b.Kept → b.filePath ≠ none

def Untagged (s : State) : Prop := ∀ b ∈ s.rows, b.Kept → b.s3StorageId = none

variable {s : State}

theorem Row.Kept.denied {b : Row} (h : b.Kept) : ¬ b.operation ≠ .backup := fun hn => hn h.1

/-- In a reachable state a backup is where its row says exactly when the row names no storage. -/
theorem Base.good_iff (h : Base s) : Good s ↔ Untagged s := by
  refine forall₂_congr fun b hb => imp_congr_right fun hk => ?_
  constructor
  · rintro ⟨f, -, ha, -⟩
    cases hs : b.s3StorageId with
    | none => rfl
    | some storage =>
        rw [hs, denote_some, h.objects] at ha
        cases ha
  · intro hs
    obtain ⟨f, hf⟩ := Option.ne_none_iff_exists'.mp (h.recorded b hb hk)
    have hl : locate s b = some (.file (s.serverId b.ownerId) f) := by simp [locate, access, hf, hs]
    refine ⟨f, hf, ?_⟩
    simp only [hs, denote_none]
    exact ⟨h.written b hb hk.1 f hf, hl, hl, by rw [removeVolumeBackupFile, if_neg hk.denied, hl], hl⟩

theorem mem_of_find {id : String} {b : Row} (h : find s id = some b) : b ∈ s.rows ∧ b.id = id :=
  ⟨List.mem_of_find?_eq_some h, by simpa using List.find?_some h⟩

theorem Base.eq_of_id (h : Base s) {b b' : Row} (hb : b ∈ s.rows) (hb' : b' ∈ s.rows) (hid : b.id = b'.id) :
    b = b' := List.inj_on_of_nodup_map h.nodup hb hb' hid

theorem setRow_map_id (s : State) (id : String) (g : Row → Row) (hg : ∀ b, (g b).id = b.id) :
    (setRow s id g).rows.map (·.id) = s.rows.map (·.id) := by
  rw [setRow, List.map_map]
  refine List.map_congr_left fun b _ => ?_
  simp only [Function.comp_apply]
  split_ifs
  · exact hg b
  · rfl

theorem Base.fail (h : Base s) (id : String) : Base (setRow s id Row.fail) := by
  have hm : ∀ b' ∈ (setRow s id Row.fail).rows, ∃ b ∈ s.rows, b' = b ∨ b' = b.fail := by
    intro b' hb'
    obtain ⟨b, hb, rfl⟩ := List.mem_map.mp hb'
    refine ⟨b, hb, ?_⟩
    split_ifs
    · exact Or.inr rfl
    · exact Or.inl rfl
  refine ⟨?_, h.objects, ?_, ?_, ?_⟩
  · rw [setRow_map_id s id Row.fail fun _ => rfl]
    exact h.nodup
  · intro b' hb'
    obtain ⟨b, hb, rfl | rfl⟩ := hm b' hb'
    · exact h.written b' hb
    · exact h.written b hb
  · intro b' hb'
    obtain ⟨b, hb, rfl | rfl⟩ := hm b' hb'
    · exact h.stamp b' hb
    · exact h.stamp b hb
  · intro b' hb' hk
    obtain ⟨b, hb, rfl | rfl⟩ := hm b' hb'
    · exact h.recorded b' hb hk
    · cases hk.2

theorem locate_not_other (h : Base s) {b c : Row} (hb : b ∈ s.rows) (hbo : b.operation = .backup)
    (hc : c ∈ s.rows) (hco : c.operation = .backup) (hid : c.id ≠ b.id) {p : Place}
    (hp : locate s b = some p)
    {f : String} (hf : c.filePath = some f) : Place.file (s.serverId c.ownerId) f ≠ p := by
  rintro rfl
  obtain ⟨g, hg, hd⟩ := access_eq_some hp
  cases hs : b.s3StorageId with
  | some storage => simp [hs] at hd
  | none =>
      rw [hs, denote_none] at hd
      have hwc := h.written c hc hco f hf
      rw [hd, h.written b hb hbo g hg] at hwc
      exact hid (Option.some.inj hwc).symm

/-- Deleting a backup, with or without its file, harms no other. -/
theorem Base.deleteBackup (h : Base s) {b : Row} {p : Option Place} (hb : b ∈ s.rows)
    (hp : p = none ∨ b.operation = .backup ∧ p = locate s b) : Base (deleteBackup s b p) := by
  have hr : (Backups.deleteBackup s b p).rows = s.rows.filter (·.id ≠ b.id) := by cases p <;> rfl
  have hv : (Backups.deleteBackup s b p).serverId = s.serverId := by cases p <;> rfl
  have ht : (Backups.deleteBackup s b p).clock = s.clock := by cases p <;> rfl
  have ha : ∀ q, some q ≠ p → (Backups.deleteBackup s b p).archives q = s.archives q := by
    intro q hq
    cases p with
    | none => rfl
    | some p => exact Function.update_of_ne (fun he => hq (congrArg some he)) _ _
  have hmem : ∀ {c}, c ∈ (Backups.deleteBackup s b p).rows → c ∈ s.rows ∧ c.id ≠ b.id := by
    intro c hc
    rw [hr, List.mem_filter] at hc
    exact ⟨hc.1, of_decide_eq_true hc.2⟩
  refine ⟨?_, ?_, ?_, ?_, ?_⟩
  · rw [hr]
    exact h.nodup.sublist (List.filter_sublist.map _)
  · intro storage key
    cases p with
    | none => exact h.objects storage key
    | some p =>
        by_cases hq : Place.object storage key = p
        · subst hq; exact Function.update_self _ _ _
        · rw [ha _ (fun he => hq (Option.some.inj he))]
          exact h.objects storage key
  · intro c hc hco f hf
    have hcs := hmem hc
    rw [hv, ha, h.written c hcs.1 hco f hf]
    rcases hp with rfl | ⟨hbo, rfl⟩
    · exact Option.some_ne_none _
    · exact fun he => locate_not_other h hb hbo hcs.1 hco hcs.2 he.symm hf rfl
  · intro c hc hco f hf
    rw [ht]
    exact h.stamp c (hmem hc).1 hco f hf
  · exact fun c hc hk => h.recorded c (hmem hc).1 hk

theorem deleteBackup_rows (s : State) (b : Row) (p : Option Place) :
    (deleteBackup s b p).rows = s.rows.filter (·.id ≠ b.id) := by cases p <;> rfl

theorem retain_subset (s : State) (old : List Row) : (retain s old).rows ⊆ s.rows := by
  induction old generalizing s with
  | nil => exact List.Subset.refl _
  | cons b old ih =>
      refine List.Subset.trans (ih _) ?_
      rw [deleteBackup_rows]
      exact List.filter_sublist.subset

theorem Base.retain (h : Base s) {old : List Row} (hn : (old.map (·.id)).Nodup)
    (ho : ∀ b ∈ old, b ∈ s.rows ∧ b.operation = .backup) : Base (retain s old) := by
  induction old generalizing s with
  | nil => exact h
  | cons b old ih =>
      obtain ⟨hb, ho⟩ := List.forall_mem_cons.mp ho
      rw [List.map_cons, List.nodup_cons] at hn
      refine ih (h.deleteBackup hb.1 (Or.inr ⟨hb.2, rfl⟩)) hn.2 fun c hc => ⟨?_, (ho c hc).2⟩
      rw [deleteBackup_rows, List.mem_filter]
      exact ⟨(ho c hc).1, decide_eq_true fun hid => hn.1 (hid ▸ List.mem_map_of_mem hc)⟩

theorem expired_spec (h : Base s) (b : Row) (n : Nat) :
    (((expired s b).take n).map (·.id)).Nodup ∧
      ∀ c ∈ (expired s b).take n, c ∈ s.rows ∧ c.operation = .backup := by
  have hsub : ((expired s b).take n).Sublist _ := (List.take_sublist n _).trans (List.drop_sublist _ _)
  constructor
  · refine List.Nodup.sublist (hsub.map _) ?_
    rw [((List.perm_insertionSort _ _).map _).nodup_iff]
    exact h.nodup.sublist (List.filter_sublist.map _)
  · intro c hc
    have hm := hsub.subset hc
    rw [List.mem_insertionSort, List.mem_filter, decide_eq_true_iff] at hm
    exact ⟨hm.1, hm.2.2.2.1⟩

theorem Base.tick (h : Base s) {now : Nat} (hn : s.clock ≤ now) : Base { s with clock := now } :=
  { h with
    stamp := fun b hb ho f hf =>
      let ⟨ts, hts, he⟩ := h.stamp b hb ho f hf
      ⟨ts, hts.trans hn, he⟩ }

theorem mem_archived {b c : Row} {now size : Nat} (hc : c ∈ (archived s b now size).rows) :
    c ∈ s.rows ∧ c.id ≠ b.id ∨
      ∃ b' ∈ s.rows, b'.id = b.id ∧ c = b'.archive (archivePath b now) size := by
  obtain ⟨b', hb', rfl⟩ := List.mem_map.mp hc
  split_ifs with hid
  · exact Or.inr ⟨b', hb', hid, rfl⟩
  · exact Or.inl ⟨hb', hid⟩

/-- A new archive has a path of its own: it carries a later time than every other. -/
theorem Base.archived (h : Base s) {b : Row} (hb : b ∈ s.rows) {now : Nat} (hn : s.clock < now)
    (size : Nat) :
    Base (archived { s with clock := now } b now size) := by
  have hnew : ∀ c ∈ s.rows, c.operation = .backup → ∀ f, c.filePath = some f → f ≠ archivePath b now := by
    rintro c hc hco f hf rfl
    obtain ⟨ts, hts, he⟩ := h.stamp c hc hco _ hf
    exact absurd (Text.stamped_inj he) (by omega)
  have hkeep : ∀ q, q ≠ Place.file (s.serverId b.ownerId) (archivePath b now) →
      (Backups.archived { s with clock := now } b now size).archives q = s.archives q :=
    fun q hq => Function.update_of_ne hq _ _
  refine ⟨?_, ?_, ?_, ?_, ?_⟩
  · rw [Backups.archived, setRow_map_id _ b.id (Row.archive (archivePath b now) size) fun _ => rfl]
    exact h.nodup
  · intro storage key
    rw [hkeep _ (by simp)]
    exact h.objects storage key
  · intro c hc hco f hf
    rcases mem_archived hc with ⟨hc, -⟩ | ⟨b', hb', hid, rfl⟩
    · rw [hkeep _ (fun he => hnew c hc hco f hf (by injection he))]
      exact h.written c hc hco f hf
    · obtain rfl := h.eq_of_id hb' hb hid
      obtain rfl := Option.some.inj hf
      exact Function.update_self _ _ _
  · intro c hc hco f hf
    rcases mem_archived hc with ⟨hc, -⟩ | ⟨b', hb', hid, rfl⟩
    · obtain ⟨ts, hts, he⟩ := h.stamp c hc hco f hf
      exact ⟨ts, hts.trans hn.le, he⟩
    · obtain rfl := h.eq_of_id hb' hb hid
      exact ⟨now, le_refl _, (Option.some.inj hf).symm⟩
  · intro c hc hk
    rcases mem_archived hc with ⟨hc, -⟩ | ⟨b', hb', hid, rfl⟩
    · exact h.recorded c hc hk
    · exact Option.some_ne_none _

theorem Base.restored (h : Base s) {b : Row} (hb : b ∈ s.rows) (ho : b.operation = .restore)
    (f : Option String) : Base (setRow s b.id (Row.succeed f)) := by
  have hm : ∀ c ∈ (setRow s b.id (Row.succeed f)).rows, c.operation = .backup → c ∈ s.rows := by
    intro c hc hco
    obtain ⟨c', hc', rfl⟩ := List.mem_map.mp hc
    split_ifs at hco ⊢ with hid
    · have hr := h.eq_of_id hc' hb hid
      rw [hr, Row.succeed, ho] at hco
      cases hco
    · exact hc'
  refine ⟨?_, h.objects, fun c hc hco => h.written c (hm c hc hco) hco,
    fun c hc hco => h.stamp c (hm c hc hco) hco, fun c hc hk => h.recorded c (hm c hc hk.1) hk⟩
  rw [setRow_map_id s b.id (Row.succeed f) fun _ => rfl]
  exact h.nodup

theorem Base.cons (h : Base s) {b : Row} (hid : find s b.id = none) (hq : b.status = .queued)
    (hf : b.filePath = none) : Base { s with rows := b :: s.rows } := by
  refine ⟨?_, h.objects, ?_, ?_, ?_⟩
  · refine List.nodup_cons.mpr ⟨fun hm => ?_, h.nodup⟩
    obtain ⟨c, hc, he⟩ := List.mem_map.mp hm
    have := List.find?_eq_none.mp hid c hc
    exact this (decide_eq_true he)
  · intro c hc hco f hcf
    rcases List.mem_cons.mp hc with rfl | hc
    · rw [hf] at hcf; cases hcf
    · exact h.written c hc hco f hcf
  · intro c hc hco f hcf
    rcases List.mem_cons.mp hc with rfl | hc
    · rw [hf] at hcf; cases hcf
    · exact h.stamp c hc hco f hcf
  · intro c hc hk
    rcases List.mem_cons.mp hc with rfl | hc
    · rw [Row.Kept, hq] at hk; cases hk.2
    · exact h.recorded c hc hk

theorem Base.dropStorage (h : Base s) (id : String) : Base (step s (.deleteStorage id)) := by
  have hm : ∀ c ∈ (step s (.deleteStorage id)).rows, ∃ b ∈ s.rows, c = b ∨
    c = { b with s3StorageId := none } := by
    intro c hc
    obtain ⟨b, hb, rfl⟩ := List.mem_map.mp hc
    refine ⟨b, hb, ?_⟩
    split_ifs
    · exact Or.inr rfl
    · exact Or.inl rfl
  refine ⟨?_, h.objects, ?_, ?_, ?_⟩
  · have he : (step s (.deleteStorage id)).rows.map (·.id) = s.rows.map (·.id) := by
      rw [step, List.map_map]
      refine List.map_congr_left fun b _ => ?_
      simp only [Function.comp_apply]
      split_ifs <;> rfl
    rw [he]
    exact h.nodup
  · intro c hc
    obtain ⟨b, hb, rfl | rfl⟩ := hm c hc
    · exact h.written c hb
    · exact h.written b hb
  · intro c hc
    obtain ⟨b, hb, rfl | rfl⟩ := hm c hc
    · exact h.stamp c hb
    · exact h.stamp b hb
  · intro c hc
    obtain ⟨b, hb, rfl | rfl⟩ := hm c hc
    · exact h.recorded c hb
    · exact h.recorded b hb

theorem Base.runBackup (h : Base s) {b : Row} (hb : b ∈ s.rows) {now : Nat} (hn : s.clock < now)
    (ending : Ending) :
    Base (runBackup { s with clock := now } b now ending) := by
  cases ending with
  | failed => exact (h.tick hn.le).fail b.id
  | finished size retained threw =>
      have ha := h.archived hb hn size
      obtain ⟨hnd, hmem⟩ := expired_spec ha b retained
      have hr := ha.retain hnd hmem
      rw [Backups.runBackup]
      split_ifs
      · exact hr.fail b.id
      · exact hr

theorem Base.runRestore (h : Base s) {b : Row} (hb : b ∈ s.rows) (ho : b.operation = .restore)
    (ending : Ending) :
    Base (runRestore s b ending) := by
  cases ending with
  | failed => exact h.fail b.id
  | finished size retained threw =>
      rw [Backups.runRestore]
      split
      · exact h.fail b.id
      · exact h.restored hb ho _

theorem step_base (s : State) (a : Action) (h : Base s) : Base (step s a) := by
  cases a with
  | createStorage => exact ⟨h.nodup, h.objects, h.written, h.stamp, h.recorded⟩
  | deleteStorage id => exact h.dropStorage id
  | create id ownerType ownerId volumeId label storageId now =>
      simp only [step]
      split_ifs with hc
      · exact h
      · rw [not_or, Option.not_isSome_iff_eq_none] at hc
        exact h.cons hc.1 rfl rfl
  | createRestore id sourceId now =>
      simp only [step]
      split
      · exact h
      · split_ifs with hc
        · exact h
        · rw [not_or, Option.not_isSome_iff_eq_none] at hc
          exact h.cons hc.1 rfl rfl
  | run id now ending =>
      simp only [step]
      split
      · exact h
      · rename_i b hf
        split_ifs with hc
        · exact h
        · rw [not_or, not_le] at hc
          have hb := (mem_of_find hf).1
          split
          · exact h.runBackup hb hc.2 ending
          · rename_i ho
            exact (h.tick hc.2.le).runRestore hb ho ending
  | download => exact h
  | delete id =>
      simp only [step]
      split
      · exact h
      · rename_i b hf
        refine h.deleteBackup (mem_of_find hf).1 ?_
        rw [removeVolumeBackupFile]
        split_ifs with ho
        · exact Or.inl rfl
        · exact Or.inr ⟨not_not.mp ho, rfl⟩

/-- No backup is run to success while its row names an S3 destination. -/
def Allowed (s : State) : Action → Prop
  | .run id _ (.finished _ _ false) => ∀ b, find s id = some b → b.operation = .backup → b.s3StorageId = none
  | _ => True

theorem Untagged.of_kept {t : State} (h : Untagged s)
    (hk : ∀ c ∈ t.rows, c.Kept → c ∈ s.rows ∨ c.s3StorageId = none) : Untagged t := by
  intro c hc hck
  rcases hk c hc hck with hs | hs
  · exact h c hs hck
  · exact hs

theorem mem_setRow_fail {id : String} {c : Row} (hc : c ∈ (setRow s id Row.fail).rows) (hk : c.Kept) :
    c ∈ s.rows ∧ c.id ≠ id := by
  obtain ⟨b, hb, rfl⟩ := List.mem_map.mp hc
  split_ifs at hk ⊢ with hid
  · cases hk.2
  · exact ⟨hb, hid⟩

theorem Untagged.cons (h : Untagged s) {b : Row} (hq : b.status = .queued) :
    Untagged { s with rows := b :: s.rows } := by
  refine h.of_kept fun c hc hk => ?_
  rcases List.mem_cons.mp hc with rfl | hc
  · rw [Row.Kept, hq] at hk; cases hk.2
  · exact Or.inl hc

theorem Untagged.fail (h : Untagged s) (id : String) : Untagged (setRow s id Row.fail) :=
  h.of_kept fun _ hc hk => Or.inl (mem_setRow_fail hc hk).1

theorem Untagged.runBackup (h : Untagged s) (hs : Base s) {b : Row} (hb : b ∈ s.rows) (now : Nat)
    {ending : Ending}
    (ha : ∀ size retained, ending = .finished size retained false → b.s3StorageId = none) :
    Untagged (runBackup { s with clock := now } b now ending) := by
  cases ending with
  | failed => exact Untagged.fail (s := { s with clock := now }) h b.id
  | finished size retained threw =>
      refine h.of_kept fun c hc hk => ?_
      simp only [Backups.runBackup] at hc
      cases threw with
      | true =>
          obtain ⟨hc, hid⟩ := mem_setRow_fail hc hk
          rcases mem_archived (retain_subset _ _ hc) with ⟨hc, -⟩ | ⟨b', -, hid', rfl⟩
          · exact Or.inl hc
          · exact absurd hid' hid
      | false =>
          rcases mem_archived (retain_subset _ _ hc) with ⟨hc, -⟩ | ⟨b', hb', hid', rfl⟩
          · exact Or.inl hc
          · obtain rfl := hs.eq_of_id hb' hb hid'
            exact Or.inr (ha size retained rfl)

theorem Untagged.runRestore (h : Untagged s) (hs : Base s) {b : Row} (hb : b ∈ s.rows)
    (ho : b.operation = .restore)
    (ending : Ending) : Untagged (runRestore s b ending) := by
  cases ending with
  | failed => exact h.fail b.id
  | finished size retained threw =>
      rw [Backups.runRestore]
      split
      · exact h.fail b.id
      · refine h.of_kept fun c hc hk => ?_
        obtain ⟨c', hc', rfl⟩ := List.mem_map.mp hc
        split_ifs at hk ⊢ with hid
        · have hr := hs.eq_of_id hc' hb hid
          rw [Row.Kept, hr, Row.succeed, ho] at hk
          cases hk.1
        · exact Or.inl hc'

theorem step_untagged (s : State) (a : Action) (h : Base s ∧ Untagged s) (ha : Allowed s a) :
    Untagged (step s a) := by
  obtain ⟨hs, h⟩ := h
  cases a with
  | createStorage | download => exact h
  | deleteStorage id =>
      intro c hc hk
      obtain ⟨b, hb, rfl⟩ := List.mem_map.mp hc
      split_ifs at hk ⊢
      · rfl
      · exact h b hb hk
  | create id ownerType ownerId volumeId label storageId now =>
      simp only [step]
      split_ifs
      · exact h
      · exact h.cons rfl
  | createRestore id sourceId now =>
      simp only [step]
      split
      · exact h
      · split_ifs
        · exact h
        · exact h.cons rfl
  | run id now ending =>
      simp only [step]
      split
      · exact h
      · rename_i b hf
        split_ifs with hc
        · exact h
        · rw [not_or, not_le] at hc
          have hb := (mem_of_find hf).1
          split
          · rename_i ho
            exact h.runBackup hs hb now fun size retained he => by subst he; exact ha b hf ho
          · rename_i ho
            exact Untagged.runRestore (s := { s with clock := now }) h (hs.tick hc.2.le) hb ho ending
  | delete id =>
      simp only [step]
      split
      · exact h
      · rename_i b hf
        refine h.of_kept fun c hc _ => Or.inl ?_
        rw [deleteBackup_rows] at hc
        exact List.mem_of_mem_filter hc

theorem blank_base (serverId : String → String) (storages : List String) (clock : Nat) :
    Base ⟨serverId, storages, [], fun _ => none, clock⟩ :=
  ⟨List.nodup_nil, fun _ _ => rfl, by simp, by simp, by simp⟩

/-- After every run, the backups are where their rows say exactly when no row of a finished
backup names a storage; and that is so when none is run to success while its row does. -/
theorem run_good (serverId : String → String) (storages : List String) (clock : Nat) (as : List Action) :
    let s₀ : State := ⟨serverId, storages, [], fun _ => none, clock⟩
    (Good (run step s₀ as) ↔ Untagged (run step s₀ as)) ∧
      (Along step Allowed s₀ as → Along step (fun s a => Good (step s a)) s₀ as) := by
  intro s₀
  have hb : Base s₀ := blank_base serverId storages clock
  have hu : Untagged s₀ := fun _ hc => by cases hc
  have hall : Along step (fun _ _ => True) s₀ as := along_true s₀ as
  refine ⟨(along_invariant (fun s a h _ => step_base s a h) hb hall).good_iff, fun h => ?_⟩
  refine along_imp (I := fun s => Base s ∧ Untagged s) ?_ ?_ ⟨hb, hu⟩ h
  · exact fun s a hs ha => ⟨step_base s a hs.1, step_untagged s a hs ha⟩
  · exact fun s a hs ha => (step_base s a hs.1).good_iff.mpr (step_untagged s a hs ha)

theorem run_good_local :
    Along step (fun s a => Good (step s a)) ⟨fun _ => "vps", [], [], fun _ => none, 0⟩
      [.create "b1" .application "app" (some "01234567-89ab") "/data" none 1, .run "b1" 2 (.finished 4096 0 false)] :=
  (run_good (fun _ => "vps") [] 0 _).2 ⟨trivial, fun _ hb _ => by cases hb; rfl, trivial⟩

/-- A backup that asks for a bucket: the archive stays on the server, the row says bucket. -/
theorem backup_to_storage_misplaced :
    ¬ Good (run step ⟨fun _ => "vps", [], [], fun _ => none, 0⟩
      [.createStorage "bucket", .create "b1" .application "app" (some "01234567-89ab") "/data" (some "bucket") 1,
        .run "b1" 2 (.finished 4096 0 false)]) := by
  intro h
  obtain ⟨f, hf, ha, -⟩ := h _ (List.mem_singleton_self _) ⟨rfl, rfl⟩
  cases hf
  revert ha
  decide

end Yeah.Volume.Backups
