import Yeah.Databases.Ports
import Yeah.Text.Space
import Yeah.Volume.Copies
import Mathlib

namespace Yeah.Volume.Targets

open Databases Runs Shell Text
open Copies (Inv Overrides applicationCopyValues copyVolumes)

def isQuoting (c : Char) : Bool := c ∈ "\"'\x60$;&|<>\\".toList

/-- A path inside the container: absolute and free of quoting characters. -/
def isSafeMountPath (path : String) : Bool :=
  path.toList.head? = some '/' ∧ utf16Length path ≤ 512 ∧ ∀ c ∈ path.toList, !isQuoting c ∧ 0x20 ≤ c.toNat

/-- A host directory for a bind mount. -/
def isSafeHostPath (path : String) : Bool :=
  path.toList.head? = some '/' ∧ path ≠ "/" ∧ utf16Length path ≤ 512 ∧
    (∀ c ∈ path.toList, !isQuoting c ∧ !isSpace c.toNat ∧ 0x20 ≤ c.toNat) ∧
        "..".toList ∉ path.toList.splitOn '/'

def SQLITE_MOUNT_DIR : String := "/data"

def databaseDataVolumeName (databaseId : Uuid) : String := "yeah-db-" ++ databaseId.text ++ "-data"

structure Database where
  id : Uuid
  serverId : String
  name : String
  engine : Engine

/-- The body of a new volume; a database's volume is not asked for by its kind. -/
structure VolumeBody where
  name : String
  mountPath : String
  kind : Option VolumeKind
  hostPath : Option String
  fileContent : Option String
  kind_ne : kind ≠ some .database

def unsafeMountPath : String :=
  "mountPath must be an absolute path inside the container, without quotes or shell characters"

/-- The row of a new volume: the paths of the other volumes are not looked at. -/
def createVolume (applicationId id : Uuid) (body : VolumeBody) : Except String ApplicationVolume :=
  if !isSafeMountPath body.mountPath then .error unsafeMountPath
  else
    let kind := body.kind.getD .volume
    if kind = .bind ∧ !body.hostPath.any isSafeHostPath then
      .error "provide the server directory (absolute path, without .. or shell characters)"
    else if kind = .file ∧ !body.fileContent.any fun content => utf16Length content ≤ 1000000 then
      .error "provide the file content (up to 1 MB)"
    else
      .ok ⟨id, applicationId, body.name, body.mountPath, kind, if kind = .bind then body.hostPath else none,
        if kind = .file then body.fileContent else none⟩

structure ConnectBody where
  applicationId : Uuid
  mountPath : Option String

/-- A request to connect a database to an application, and the volume that it found for it. -/
structure Connect where
  applicationId : Uuid
  name : String
  mountPath : String
  hostPath : String
  existing : Option Uuid

def connectApplication (rows : Copies.State) (database : Option Database) (body : ConnectBody) :
    Except String Connect :=
  match database with
  | none => .error "database not found"
  | some d =>
      if !d.engine.fileBased then
        .error "only file-based databases (SQLite) are mounted into applications — the others are reached over the network"
      else
        match rows.find body.applicationId with
        | none => .error "application not found in this environment"
        | some application =>
            if application.serverId ≠ d.serverId then
              .error "the application runs on another server: a file can only be shared on the same server"
            else if application.compose then
              .error "Docker Compose applications manage their own volumes — mount the volume in the compose file instead"
            else
              let mountPath := body.mountPath.getD SQLITE_MOUNT_DIR
              if !isSafeMountPath mountPath ∨ mountPath = "/" then .error unsafeMountPath
              else
                let volumeName := databaseDataVolumeName d.id
                let existing := (rows.volumesOf application.id).find? fun v => v.kind = .database ∧
                  v.hostPath = some volumeName
                .ok ⟨application.id, d.name, mountPath, volumeName, existing.map (·.id)⟩

def clash (rows : Copies.State) (c : Connect) : Bool :=
  ((rows.volumesOf c.applicationId).filter fun v => v.mountPath = c.mountPath).any fun v => some v.id ≠ c.existing

def clashMessage (mountPath : String) : String :=
  "the application already has a volume mounted at " ++ mountPath ++ ": pick another mount path"

/-- A request that has not done all that it does: a connection that is to be written, a copy without its volumes, and
one that has read them. -/
inductive Pending
  | connect (c : Connect) (checked : Bool)
  | copy (id parent : Uuid)
  | volumes (id : Uuid) (rows : List ApplicationVolume)

structure State where
  rows : Copies.State
  databases : List Database
  pending : List Pending

def empty : State := ⟨Copies.empty, [], []⟩

inductive Action
  | createApplication (app : Application)
  | updateApplication (id : Uuid) (serverId branch dockerOptions : String) (compose : Bool)
  | deleteApplication (id : Uuid)
  | createDatabase (d : Database)
  | deleteDatabase (id : Uuid)
  | addVolume (applicationId id : Uuid) (body : VolumeBody)
  | editFile (id : Uuid) (fileContent : String)
  | deleteVolume (id : Uuid)
  | connect (databaseId : Uuid) (body : ConnectBody)
  | check (i : Nat)
  | write (i : Nat) (id : Uuid)
  /-- A clone or a preview. -/
  | copy (parent id : Uuid) (overrides : Overrides)
  | read (i : Nat)
  | insert (i : Nat) (ids : Nat → Uuid)

/-- The widths of the columns. -/
def fits (v : ApplicationVolume) : Bool :=
  v.name.length ≤ 255 ∧ v.mountPath.length ≤ 512 ∧ v.hostPath.all fun p => p.length ≤ 512

/-- A row that is too wide is refused, and with it the statement. -/
def addRows (rows : Copies.State) (new : List ApplicationVolume) : Copies.State :=
  if ∀ v ∈ new, fits v = true then rows.insertVolumes new else rows

theorem addRows_one {rows : Copies.State} {v : ApplicationVolume} (hfits : fits v = true)
    (hid : (rows.volumes.map (·.id) ++ [v].map (·.id)).Nodup)
    (happ : v.applicationId ∈ rows.applications.map (·.id)) :
    addRows rows [v] = { rows with volumes := rows.volumes ++ [v] } := by
  rw [addRows, if_pos fun w hw => List.eq_of_mem_singleton hw ▸ hfits, Copies.State.insertVolumes,
    if_pos ⟨hid, List.forall_mem_singleton.2 happ⟩]

def setContent (id : Uuid) (fileContent : String) (v : ApplicationVolume) : ApplicationVolume :=
  if v.id = id ∧ v.kind = .file ∧ utf16Length fileContent ≤ 1000000 then { v with fileContent := some fileContent } else v

def Connect.place (c : Connect) (v : ApplicationVolume) : ApplicationVolume :=
  { v with mountPath := c.mountPath, name := c.name }

def Connect.row (c : Connect) (id : Uuid) : ApplicationVolume :=
  ⟨id, c.applicationId, c.name, c.mountPath, .database, some c.hostPath, none⟩

def writeConnect (rows : Copies.State) (c : Connect) (id : Uuid) : Copies.State :=
  match c.existing with
  | some existing => { rows with volumes := rows.volumes.map fun v => if v.id = existing then c.place v else v }
  | none => addRows rows [c.row id]

/-- One access to the database by one of the requests; a request that is refused does nothing more. -/
def step (s : State) : Action → State
  | .createApplication app => { s with rows := s.rows.insertApplication app }
  | .updateApplication id serverId branch dockerOptions compose =>
      { s with rows := Copies.step s.rows (.update id serverId branch dockerOptions compose) }
  | .deleteApplication id => { s with rows := Copies.step s.rows (.delete id) }
  | .createDatabase d => { s with databases := s.databases ++ [d] }
  | .deleteDatabase id =>
      let connected (v : ApplicationVolume) : Bool :=
        v.kind = .database ∧ v.hostPath = some (databaseDataVolumeName id)
      { s with
        rows := { s.rows with volumes := s.rows.volumes.filter fun v => !connected v }
        databases := s.databases.filter fun d => d.id ≠ id }
  | .addVolume applicationId id body =>
      match createVolume applicationId id body with
      | .error _ => s
      | .ok row => { s with rows := addRows s.rows [row] }
  | .editFile id fileContent => { s with rows := { s.rows with volumes := s.rows.volumes.map (setContent id fileContent) } }
  | .deleteVolume id => { s with rows := Copies.step s.rows (.deleteVolume id) }
  | .connect databaseId body =>
      match connectApplication s.rows (s.databases.find? fun d => d.id = databaseId) body with
      | .error _ => s
      | .ok c => { s with pending := s.pending ++ [.connect c false] }
  | .check i =>
      match s.pending[i]? with
      | some (.connect c false) =>
          if clash s.rows c then { s with pending := s.pending.eraseIdx i } else { s with pending := s.pending.set i (.connect c true) }
      | _ => s
  | .write i id =>
      match s.pending[i]? with
      | some (.connect c true) => { s with rows := writeConnect s.rows c id, pending := s.pending.eraseIdx i }
      | _ => s
  | .copy parent id overrides =>
      match s.rows.find parent with
      | none => s
      | some app =>
          if id ∈ s.rows.applications.map (·.id) then s
          else
            { s with
              rows := s.rows.insertApplication (applicationCopyValues app id overrides)
              pending := s.pending ++ [.copy id parent] }
  | .read i =>
      match s.pending[i]? with
      | some (.copy id parent) => { s with pending := s.pending.set i (.volumes id (s.rows.volumesOf parent)) }
      | _ => s
  | .insert i ids =>
      match s.pending[i]? with
      | some (.volumes id rows) =>
          { s with rows := addRows s.rows (copyVolumes rows id ids), pending := s.pending.eraseIdx i }
      | _ => s

/-! ### What docker is given -/

/-- The words that follow the flag. -/
def bindWords : List String → List String
  | flag :: word :: rest => if flag = "-v" then word :: bindWords rest else bindWords (word :: rest)
  | _ => []

/-- The targets of the command line as docker takes them: a path without its empty parts, `.` and `..`. -/
def targets (command : String) : List (List (List Char)) :=
  ((bindWords ((Shell.words command).getD [])).filterMap readMount).map fun m => segments m.target.toList

def Apart (rows : Copies.State) : Prop :=
  ∀ id, ((rows.volumesOf id).map (·.mountPath)).Nodup ∧
    (targets (volumeFlags (rows.volumesOf id) id)).Nodup

def target (v : ApplicationVolume) : Option (List (List Char)) :=
  (rowMount v.applicationId v).map fun m => segments m.target.toList

/-- Two rows that docker mounts at one place, or that name one path. -/
def Collide (v w : ApplicationVolume) : Prop :=
  v.mountPath = w.mountPath ∨ ∃ t, target v = some t ∧ target w = some t

theorem Collide.symm {v w : ApplicationVolume} : Collide v w → Collide w v
  | .inl h => .inl h.symm
  | .inr ⟨t, hv, hw⟩ => .inr ⟨t, hw, hv⟩

theorem collide_congr {v v' w w' : ApplicationVolume} (hv : v.mountPath = v'.mountPath)
    (htv : target v = target v')
    (hw : w.mountPath = w'.mountPath) (htw : target w = target w') : Collide v w ↔ Collide v' w' := by
  rw [Collide, Collide, hv, htv, hw, htw]

theorem bindWords_flags (volumes : List ApplicationVolume) (applicationId : Uuid) :
    bindWords (volumes.flatMap fun v => ["-v", mountSource applicationId v ++ ":" ++ v.mountPath]) =
      volumes.map fun v => mountSource applicationId v ++ ":" ++ v.mountPath := by
  induction volumes with
  | nil => rfl
  | cons v volumes ih =>
      rw [List.flatMap_cons, List.cons_append, List.cons_append, List.nil_append, bindWords, if_pos rfl,
        ih, List.map_cons]

/-- What docker is given for the rows of an application. -/
theorem targets_volumeFlags {volumes : List ApplicationVolume} {id : Uuid}
    (h : ∀ v ∈ volumes, v.applicationId = id) :
    targets (volumeFlags volumes id) = volumes.filterMap target := by
  rw [targets, words_volumeFlags, Option.getD_some, bindWords_flags, List.filterMap_map,
    List.map_filterMap]
  refine List.filterMap_congr fun v hv => ?_
  rw [target, h v hv]
  rfl

theorem target_copy (v : ApplicationVolume) (i a : Uuid) :
    target { v with id := i, applicationId := a } = target v := by
  rw [target, target]
  cases hp : takenPath v with
  | some path => rw [Copies.rowMount_taken a v.applicationId i (by simp [hp])]
  | none =>
      have hp' : takenPath { v with id := i, applicationId := a } = none := hp
      rw [rowMount_own hp, rowMount_own hp', Option.map_map, Option.map_map]
      rfl

theorem mem_volumesOf {rows : Copies.State} {id : Uuid} {v : ApplicationVolume} :
    v ∈ rows.volumesOf id ↔ v ∈ rows.volumes ∧ v.applicationId = id := by
  rw [Copies.State.volumesOf, List.mem_filter, decide_eq_true_eq]

/-- Within one application, what docker mounts is told apart as the rows are. -/
theorem nodup_iff_pairwise {rows : Copies.State} {id : Uuid} :
    ((rows.volumesOf id).map (·.mountPath)).Nodup ∧ (targets (volumeFlags (rows.volumesOf id) id)).Nodup ↔
      (rows.volumesOf id).Pairwise fun v w => ¬ Collide v w := by
  rw [targets_volumeFlags fun v hv => (mem_volumesOf.1 hv).2, List.Nodup, List.Nodup, List.pairwise_map, List.pairwise_filterMap,
    ← List.pairwise_and_iff]
  refine List.Pairwise.iff fun v w => ?_
  simp only [Collide, not_or, not_exists, not_and]
  exact and_congr_right fun _ => ⟨fun h t hv hw => h t hv t hw rfl, fun h t hv t' hw he => h t hv (he ▸ hw)⟩

instance : Std.Symm fun v w : ApplicationVolume => ¬ Collide v w := ⟨fun _ _ h hc => h hc.symm⟩

theorem apart_iff {rows : Copies.State} (hi : Inv rows) :
    Apart rows ↔ ∀ v ∈ rows.volumes, ∀ w ∈ rows.volumes, v.id ≠ w.id → v.applicationId = w.applicationId →
      ¬ Collide v w := by
  simp only [Apart, nodup_iff_pairwise]
  constructor
  · intro h v hv w hw hne happ
    exact (h v.applicationId).forall (mem_volumesOf.2 ⟨hv, rfl⟩) (mem_volumesOf.2 ⟨hw, happ.symm⟩)
      fun he => hne (he ▸ rfl)
  · intro h id
    have hids : (rows.volumesOf id).Pairwise fun v w => v.id ≠ w.id :=
      (List.pairwise_map.1 hi.volumes).sublist List.filter_sublist
    refine hids.imp_of_mem fun hv hw hne => ?_
    obtain ⟨hv, happ⟩ := mem_volumesOf.1 hv
    obtain ⟨hw, happ'⟩ := mem_volumesOf.1 hw
    exact h _ hv _ hw hne (happ.trans happ'.symm)

/-! ### What a step writes -/

def Takes (rows : Copies.State) (new : List ApplicationVolume) : Prop :=
  (∀ v ∈ new, fits v = true) ∧ (rows.volumes.map (·.id) ++ new.map (·.id)).Nodup ∧
    ∀ v ∈ new, v.applicationId ∈ rows.applications.map (·.id)

instance (rows : Copies.State) (new : List ApplicationVolume) : Decidable (Takes rows new) :=
  inferInstanceAs (Decidable (_ ∧ _ ∧ _))

def taken (rows : Copies.State) (new : List ApplicationVolume) : List ApplicationVolume :=
  if Takes rows new then new else []

/-- The rows that get their mount path in the step, as they are then. -/
def writes (s : State) : Action → List ApplicationVolume
  | .addVolume applicationId id body =>
      match createVolume applicationId id body with
      | .error _ => []
      | .ok row => taken s.rows [row]
  | .write i id =>
      match s.pending[i]? with
      | some (.connect c true) =>
          match c.existing with
          | some existing => (s.rows.volumes.filter fun v => v.id = existing).map c.place
          | none => taken s.rows [c.row id]
      | _ => []
  | .insert i ids =>
      match s.pending[i]? with
      | some (.volumes id rows) => taken s.rows (copyVolumes rows id ids)
      | _ => []
  | _ => []

/-- A mount path is given where no other volume of the application has it, or has it spelled otherwise. -/
def Calm (s : State) (a : Action) : Prop :=
  ∀ r ∈ writes s a, ∀ v ∈ s.rows.volumes, v.id ≠ r.id → v.applicationId = r.applicationId → ¬ Collide v r

structure Same (v w : ApplicationVolume) : Prop where
  id : v.id = w.id
  applicationId : v.applicationId = w.applicationId
  mountPath : v.mountPath = w.mountPath
  target : target v = target w

theorem Same.refl (v : ApplicationVolume) : Same v v := ⟨rfl, rfl, rfl, rfl⟩

/-- What a step does to the rows: those that it writes are there, the others are as they were, or gone. -/
structure Effect (rows rows' : Copies.State) (ws : List ApplicationVolume) : Prop where
  kept : ∀ v ∈ rows'.volumes, v ∈ ws ∨ ∃ u ∈ rows.volumes, Same u v ∧ ∀ r ∈ ws, u.id ≠ r.id
  written : ∀ r ∈ ws, r ∈ rows'.volumes
  stays : ∀ r ∈ ws, ∀ v ∈ rows.volumes, v.id ≠ r.id → v.applicationId = r.applicationId →
    v ∈ rows'.volumes
  among : ∀ r ∈ ws, ∀ r' ∈ ws, r.id ≠ r'.id → ¬ Collide r r'

theorem Effect.apart_iff {rows rows' : Copies.State} {ws : List ApplicationVolume}
    (he : Effect rows rows' ws) (hi : Inv rows)
    (hi' : Inv rows') (ha : Apart rows) :
    Apart rows' ↔ ∀ r ∈ ws, ∀ v ∈ rows.volumes, v.id ≠ r.id → v.applicationId = r.applicationId →
      ¬ Collide v r := by
  rw [Targets.apart_iff hi] at ha
  rw [Targets.apart_iff hi']
  constructor
  · intro h r hr v hv hne happ
    exact h v (he.stays r hr v hv hne happ) r (he.written r hr) hne happ
  · intro h v hv w hw hne happ
    rcases he.kept v hv with hv | ⟨u, hu, huv, -⟩ <;> rcases he.kept w hw with hw | ⟨x, hx, hxw, -⟩
    · exact he.among v hv w hw hne
    · intro hc
      refine h v hv x hx (hxw.id ▸ hne.symm) (hxw.applicationId.trans happ.symm) ?_
      exact (collide_congr hxw.mountPath hxw.target rfl rfl).2 hc.symm
    · intro hc
      refine h w hw u hu (huv.id ▸ hne) (huv.applicationId.trans happ) ?_
      exact (collide_congr huv.mountPath huv.target rfl rfl).2 hc
    · intro hc
      refine ha u hu x hx (huv.id ▸ hxw.id ▸ hne)
        (huv.applicationId.trans (happ.trans hxw.applicationId.symm)) ?_
      exact (collide_congr huv.mountPath huv.target hxw.mountPath hxw.target).2 hc

theorem effect_nothing {rows rows' : Copies.State} (h : ∀ v ∈ rows'.volumes, ∃ u ∈ rows.volumes, Same u v) :
    Effect rows rows' [] := by
  refine ⟨fun v hv => ?_, by simp, by simp, by simp⟩
  obtain ⟨u, hu, huv⟩ := h v hv
  exact Or.inr ⟨u, hu, huv, by simp⟩

theorem effect_sublist {rows rows' : Copies.State} (h : rows'.volumes ⊆ rows.volumes) :
    Effect rows rows' [] :=
  effect_nothing fun v hv => ⟨v, h hv, .refl v⟩

theorem effect_addRows {rows : Copies.State} {new : List ApplicationVolume}
    (h : new.Pairwise fun v w => ¬ Collide v w) :
    Effect rows (addRows rows new) (taken rows new) := by
  rw [addRows, taken, Copies.State.insertVolumes]
  by_cases ht : Takes rows new
  · obtain ⟨hfit, hkeys⟩ := id ht
    rw [if_pos hfit, if_pos hkeys, if_pos ht]
    have hfresh := (List.nodup_append.1 hkeys.1).2.2
    refine ⟨fun v hv => ?_, fun r hr => List.mem_append_right _ hr,
      fun _ _ v hv _ _ => List.mem_append_left _ hv, ?_⟩
    · rcases List.mem_append.1 hv with hv | hv
      · exact Or.inr ⟨v, hv, .refl v, fun r hr => hfresh _ (List.mem_map_of_mem hv) _ (List.mem_map_of_mem hr)⟩
      · exact Or.inl hv
    · intro r hr r' hr' hne
      exact h.forall hr hr' fun he => hne (he ▸ rfl)
  · rw [if_neg ht]
    refine effect_sublist ?_
    split_ifs with hfit hkeys
    · exact absurd ⟨hfit, hkeys⟩ ht
    · exact fun _ hv => hv
    · exact fun _ hv => hv

theorem effect_writeConnect (rows : Copies.State) (c : Connect) (id : Uuid) :
    Effect rows (writeConnect rows c id)
      (match c.existing with
      | some existing => (rows.volumes.filter fun v => v.id = existing).map c.place
      | none => taken rows [c.row id]) := by
  rw [writeConnect]
  cases c.existing with
  | none => exact effect_addRows (List.pairwise_singleton _ _)
  | some existing =>
      have hid : ∀ r ∈ (rows.volumes.filter fun v => v.id = existing).map c.place, r.id = existing := by
        simp only [List.mem_map, List.mem_filter, decide_eq_true_eq]
        rintro r ⟨v, ⟨-, hv⟩, rfl⟩
        exact hv
      refine ⟨fun v hv => ?_, fun r hr => ?_, fun r hr v hv hne _ => ?_, fun r hr r' hr' hne => ?_⟩
      · obtain ⟨u, hu, rfl⟩ := List.mem_map.1 hv
        by_cases hu' : u.id = existing
        · rw [if_pos hu']
          exact Or.inl (List.mem_map_of_mem (List.mem_filter.2 ⟨hu, decide_eq_true hu'⟩))
        · rw [if_neg hu']
          exact Or.inr ⟨u, hu, .refl u, fun r hr he => hu' (he.trans (hid r hr))⟩
      · obtain ⟨u, hu, rfl⟩ := List.mem_map.1 hr
        obtain ⟨hu, hu'⟩ := List.mem_filter.1 hu
        exact List.mem_map.2 ⟨u, hu, if_pos (of_decide_eq_true hu')⟩
      · exact List.mem_map.2 ⟨v, hv, if_neg fun he => hne (he.trans (hid r hr).symm)⟩
      · exact absurd ((hid r hr).trans (hid r' hr').symm) hne

theorem pairwise_mapIdx {α β : Type} {R : α → α → Prop} {T : β → β → Prop} (f : Nat → α → β)
    (h : ∀ i j a b, R a b → T (f i a) (f j b)) {l : List α} (hl : l.Pairwise R) :
    (l.mapIdx f).Pairwise T := by
  induction l generalizing f with
  | nil => exact List.Pairwise.nil
  | cons a l ih =>
      obtain ⟨ha, hl⟩ := List.pairwise_cons.1 hl
      rw [List.mapIdx_cons]
      refine List.pairwise_cons.2 ⟨fun b hb => ?_, ih (fun i => f (i + 1)) (fun i j => h (i + 1) (j + 1)) hl⟩
      obtain ⟨i, hi, rfl⟩ := List.mem_mapIdx.1 hb
      exact h _ _ _ _ (ha _ (List.getElem_mem hi))

theorem collide_copy (v w : ApplicationVolume) (i j a : Uuid) :
    Collide { v with id := i, applicationId := a } { w with id := j, applicationId := a } ↔ Collide v w :=
  collide_congr rfl (target_copy v i a) rfl (target_copy w j a)

theorem copyVolumes_pairwise {rows : List ApplicationVolume} (h : rows.Pairwise fun v w => ¬ Collide v w)
    (id : Uuid)
    (ids : Nat → Uuid) : (copyVolumes rows id ids).Pairwise fun v w => ¬ Collide v w :=
  pairwise_mapIdx _ (fun i j v w hvw hc => hvw ((collide_copy v w (ids i) (ids j) id).1 hc)) h

/-- What the runs keep besides: the keys, and that the rows that a copy has read do not collide. -/
structure Keys (s : State) : Prop where
  rows : Inv s.rows
  pending : ∀ id rows, Pending.volumes id rows ∈ s.pending → rows.Pairwise fun v w => ¬ Collide v w

theorem inv_addRows {rows : Copies.State} (h : Inv rows) (new : List ApplicationVolume) :
    Inv (addRows rows new) := by
  rw [addRows]
  split_ifs
  · exact h.insertVolumes new
  · exact h

theorem inv_map {rows : Copies.State} (h : Inv rows) {f : ApplicationVolume → ApplicationVolume}
    (hid : ∀ v, (f v).id = v.id)
    (happ : ∀ v, (f v).applicationId = v.applicationId) :
    Inv { rows with volumes := rows.volumes.map f } := by
  refine ⟨h.applications, ?_, fun v hv => ?_⟩
  · rw [List.map_map, show ApplicationVolume.id ∘ f = ApplicationVolume.id from funext hid]
    exact h.volumes
  · obtain ⟨u, hu, rfl⟩ := List.mem_map.1 hv
    exact (happ u).symm ▸ h.owners u hu

theorem inv_filter {rows : Copies.State} (h : Inv rows) (p : ApplicationVolume → Bool) :
    Inv { rows with volumes := rows.volumes.filter p } :=
  ⟨h.applications, h.volumes.sublist (List.filter_sublist.map _),
    fun v hv => h.owners v (List.mem_filter.1 hv).1⟩

theorem setContent_same (id : Uuid) (fileContent : String) (v : ApplicationVolume) :
    Same v (setContent id fileContent v) := by
  rw [setContent]
  split_ifs <;> exact ⟨rfl, rfl, rfl, rfl⟩

theorem inv_writeConnect {rows : Copies.State} (h : Inv rows) (c : Connect) (id : Uuid) :
    Inv (writeConnect rows c id) := by
  rw [writeConnect]
  split
  · refine inv_map h (fun v => ?_) fun v => ?_
    all_goals split_ifs <;> rfl
  · exact inv_addRows h _

theorem inv_step {s : State} (h : Inv s.rows) (a : Action) : Inv (step s a).rows := by
  cases a with
  | createApplication app => exact h.insertApplication app
  | updateApplication id serverId branch dockerOptions compose =>
      exact Copies.step_inv _ (.update id serverId branch dockerOptions compose) h
  | deleteApplication id => exact Copies.step_inv _ (.delete id) h
  | createDatabase d => exact h
  | deleteDatabase id => exact inv_filter h _
  | editFile id fileContent =>
      exact inv_map h (fun v => (setContent_same id fileContent v).id.symm)
        fun v => (setContent_same id fileContent v).applicationId.symm
  | deleteVolume id => exact Copies.step_inv _ (.deleteVolume id) h
  | addVolume applicationId id body =>
      rw [step]
      split
      · exact h
      · exact inv_addRows h _
  | connect | check | read =>
      rw [step]
      repeat' split
      all_goals exact h
  | write i id =>
      rw [step]
      split
      · exact inv_writeConnect h _ id
      · exact h
  | copy parent id overrides =>
      rw [step]
      repeat' split
      · exact h
      · exact h
      · exact h.insertApplication _
  | insert i ids =>
      rw [step]
      split
      · exact inv_addRows h _
      · exact h

theorem effect_step {s : State} (h : Keys s) (a : Action) :
    Effect s.rows (step s a).rows (writes s a) := by
  have hsame : Effect s.rows s.rows [] := effect_sublist fun _ hv => hv
  cases a with
  | createApplication app =>
      refine effect_sublist ?_
      rw [step, Copies.State.insertApplication]
      split_ifs <;> exact fun _ hv => hv
  | updateApplication => exact effect_sublist fun _ hv => hv
  | createDatabase => exact hsame
  | deleteApplication | deleteDatabase | deleteVolume => exact effect_sublist (List.filter_subset_self _)
  | editFile id fileContent =>
      refine effect_nothing fun v hv => ?_
      obtain ⟨u, hu, rfl⟩ := List.mem_map.1 hv
      exact ⟨u, hu, setContent_same id fileContent u⟩
  | addVolume applicationId id body =>
      rw [step, writes]
      split
      · exact hsame
      · exact effect_addRows (List.pairwise_singleton _ _)
  | connect | check | read =>
      change Effect s.rows _ []
      rw [step]
      repeat' split
      all_goals exact hsame
  | write i id =>
      rw [step, writes]
      split
      · exact effect_writeConnect s.rows _ id
      · exact hsame
  | copy parent id overrides =>
      change Effect s.rows _ []
      rw [step]
      repeat' split
      · exact hsame
      · exact hsame
      · refine effect_sublist ?_
        rw [Copies.State.insertApplication]
        split_ifs <;> exact fun _ hv => hv
  | insert i ids =>
      rw [step, writes]
      split
      · next id rows hp => exact effect_addRows (copyVolumes_pairwise (h.pending id rows (List.mem_of_getElem? hp)) id ids)
      · exact hsame

/-- A copy reads the volumes of its parent, and no other request holds rows. -/
theorem mem_pending_step {s : State} {a : Action} {id : Uuid} {rows : List ApplicationVolume}
    (h : Pending.volumes id rows ∈ (step s a).pending) :
    Pending.volumes id rows ∈ s.pending ∨ ∃ parent, rows = s.rows.volumesOf parent := by
  cases a with
  | createApplication | updateApplication | deleteApplication | createDatabase | deleteDatabase | editFile | deleteVolume => exact Or.inl h
  | addVolume =>
      rw [step] at h
      split at h <;> exact Or.inl h
  | connect =>
      rw [step] at h
      split at h
      · exact Or.inl h
      · exact Or.inl (by simpa using h)
  | check i =>
      rw [step] at h
      split at h
      · split_ifs at h
        · exact Or.inl (List.mem_of_mem_eraseIdx h)
        · exact (List.mem_or_eq_of_mem_set h).imp_right fun he => by cases he
      · exact Or.inl h
  | write i =>
      rw [step] at h
      split at h
      · exact Or.inl (List.mem_of_mem_eraseIdx h)
      · exact Or.inl h
  | copy =>
      rw [step] at h
      repeat' split at h
      · exact Or.inl h
      · exact Or.inl h
      · exact Or.inl (by simpa using h)
  | read i =>
      rw [step] at h
      split at h
      · next id' parent hp =>
          refine (List.mem_or_eq_of_mem_set h).imp_right fun he => ?_
          injection he with _ hrows
          exact ⟨parent, hrows⟩
      · exact Or.inl h
  | insert i =>
      rw [step] at h
      split at h
      · exact Or.inl (List.mem_of_mem_eraseIdx h)
      · exact Or.inl h

theorem keys_step {s : State} (h : Keys s) (ha : Apart s.rows) (a : Action) : Keys (step s a) := by
  refine ⟨inv_step h.rows a, fun id rows hp => ?_⟩
  rcases mem_pending_step hp with hp | ⟨parent, rfl⟩
  · exact h.pending id rows hp
  · exact nodup_iff_pairwise.1 (ha parent)

section Instances

def site : Application := ⟨.fill 'a' Uuid.isAlphanum_a, "server", false, "main", ""⟩

def dataVolume : VolumeBody := ⟨"data", "/data", none, none, none, by simp⟩

def dataRow (id : Uuid) : ApplicationVolume := ⟨id, site.id, "data", "/data", .volume, none, none⟩

end Instances

end Yeah.Volume.Targets
