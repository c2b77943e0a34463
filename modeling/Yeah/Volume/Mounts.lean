import Yeah.Shell.Quote
import Yeah.Text.Uuid

namespace Yeah.Volume

open Shell Text

inductive VolumeKind
  | volume
  | bind
  | file
  | database
  deriving DecidableEq

/-- A row of `application_volumes`. -/
structure ApplicationVolume where
  id : Uuid
  applicationId : Uuid
  name : String
  mountPath : String
  kind : VolumeKind
  hostPath : Option String
  fileContent : Option String
  deriving DecidableEq

/-- The columns of an application that decide what its containers mount. -/
structure Application where
  id : Uuid
  serverId : String
  /-- The build pack is `docker_compose`. -/
  compose : Bool
  branch : String
  dockerOptions : String
  deriving DecidableEq

def volumeFilePath (applicationId volumeId : Uuid) : String :=
  "/opt/yeah-apps/" ++ applicationId.text ++ "/files/" ++ volumeId.text

theorem volumeFilePath_toList (applicationId volumeId : Uuid) :
    (volumeFilePath applicationId volumeId).toList =
    "/opt/yeah-apps/".toList ++ applicationId.text.toList ++ "/files/".toList ++
      volumeId.text.toList := by
  change ("/opt/yeah-apps/" ++ applicationId.text ++ "/files/" ++ volumeId.text).toList = _
  rw [String.toList_append, String.toList_append, String.toList_append]

def volumeName (volumeId : Uuid) : String := "yeah-vol-" ++ volumeId.text

def composeProjectName (applicationId : Uuid) : String := "yeah-app-" ++ applicationId.text

/-- The host path of a row that is mounted as it is. -/
def takenPath (v : ApplicationVolume) : Option String :=
  match v.kind with
  | .database | .bind => v.hostPath.filter (· ≠ "")
  | .volume | .file => none

def mountSource (applicationId : Uuid) (v : ApplicationVolume) : String :=
  match takenPath v with
  | some hostPath => hostPath
  | none => if v.kind = .file then volumeFilePath applicationId v.id else volumeName v.id

/-- Builds `-v` flags for every configured persistent storage mount. -/
def volumeFlags (volumes : List ApplicationVolume) (applicationId : Uuid) : String :=
  String.join (volumes.map fun v => "-v " ++ shellQuote (mountSource applicationId v) ++ ":" ++ shellQuote v.mountPath ++ " ")

structure Mount where
  source : String
  target : String
  writable : Bool
  deriving DecidableEq

/-- What docker takes after the second colon of `-v`. -/
def mountOptions : List String :=
  ["ro", "rw", "z", "Z", "nocopy", "shared", "rshared", "slave", "rslave", "private", "rprivate", "consistent", "cached", "delegated"]

/-- Docker's reading of the word after `-v`. -/
def readMount (word : String) : Option Mount :=
  match word.toList.splitOn ':' with
  | [source, target] => some ⟨String.ofList source, String.ofList target, true⟩
  | [source, target, mode] =>
      let options := (mode.splitOn ',').map String.ofList
      if ∀ o ∈ options, o ∈ mountOptions then some ⟨String.ofList source, String.ofList target, "ro" ∉ options⟩ else none
  | _ => none

/-- The mounts of a command line that consists of `-v` flags. -/
def readMounts : List String → Option (List Mount)
  | [] => some []
  | flag :: word :: rest => if flag = "-v" then (readMount word).bind fun m => (readMounts rest).map (m :: ·) else none
  | [_] => none

/-- A volume of a service in the compose file of a repository. -/
inductive ComposeVolume
  /-- A named volume of the project. -/
  | named (key target : String) (writable : Bool)
  /-- A directory or a file of the repository. -/
  | within (path : String) (inside : ∀ s ∈ path.toList.splitOn '/', s ≠ "..".toList) (target : String) (writable : Bool)
  /-- An absolute path, a path that leaves the repository, an external volume or one with a `name:`. -/
  | elsewhere (mount : Mount)

/-- What is read outside of the rows: the mounts among the user's extra docker options, and the compose file of a branch. -/
structure Docker where
  optionMounts : String → List Mount
  composeVolumes : String → List ComposeVolume

def ComposeVolume.mount (applicationId : Uuid) : ComposeVolume → Mount
  | .named key target writable => ⟨composeProjectName applicationId ++ "_" ++ key, target, writable⟩
  | .within path _ target writable => ⟨"/opt/yeah-apps/" ++ applicationId.text ++ "/repo/" ++ path, target, writable⟩
  | .elsewhere mount => mount

theorem mount_within_toList (applicationId : Uuid) (path : String)
    (h : ∀ s ∈ path.toList.splitOn '/', s ≠ "..".toList)
    (target : String) (writable : Bool) :
    (ComposeVolume.mount applicationId (.within path h target writable)).source.toList =
    "/opt/yeah-apps/".toList ++ applicationId.text.toList ++ "/repo/".toList ++ path.toList := by
  change ("/opt/yeah-apps/" ++ applicationId.text ++ "/repo/" ++ path).toList = _
  rw [String.toList_append, String.toList_append, String.toList_append]

variable (docker : Docker)

/-- What the containers of an application mount. A flag that docker does not take makes `docker run` fail: no container. -/
def mounts (app : Application) (volumes : List ApplicationVolume) : List Mount :=
  if app.compose then (docker.composeVolumes app.branch).map (·.mount app.id)
  else
    match (words (volumeFlags volumes app.id)).bind readMounts with
    | none => []
    | some ms => ms ++ docker.optionMounts app.dockerOptions

/-- One part of a path after another, as the kernel walks them. -/
def walk (at_ : List (List Char)) (s : List Char) : List (List Char) :=
  if s = [] ∨ s = ".".toList then at_ else if s = "..".toList then at_.dropLast else at_ ++ [s]

def segments (path : List Char) : List (List Char) := (path.splitOn '/').foldl walk []

def isPath (source : String) : Bool := source.toList.head? = some '/'

/-- Two sources on one server share data: the same docker volume, or a path and what lies below it. -/
def Overlap (a b : String) : Prop :=
  if isPath a && isPath b then segments a.toList <+: segments b.toList ∨
    segments b.toList <+: segments a.toList else a = b

def Touches (ms ms' : List Mount) : Prop :=
  ∃ m ∈ ms, m.writable = true ∧ ∃ m' ∈ ms', Overlap m.source m'.source

def rowMount (applicationId : Uuid) (v : ApplicationVolume) : Option Mount :=
  readMount (mountSource applicationId v ++ ":" ++ v.mountPath)

def ComposeVolume.taken : ComposeVolume → Option Mount
  | .elsewhere mount => some mount
  | .named .. | .within .. => none

def Accepted (app : Application) (volumes : List ApplicationVolume) : Prop :=
  ∀ v ∈ volumes, (rowMount app.id v).isSome = true

instance (app : Application) (volumes : List ApplicationVolume) : Decidable (Accepted app volumes) :=
  inferInstanceAs (Decidable (∀ v ∈ volumes, _))

/-- The mounts whose source is given: host paths of rows, docker options, and in a compose file what is not of the project. -/
def taken (app : Application) (volumes : List ApplicationVolume) : List Mount :=
  if app.compose then (docker.composeVolumes app.branch).filterMap (·.taken)
  else if Accepted app volumes then
    (volumes.filter fun v => (takenPath v).isSome).filterMap (rowMount app.id) ++
        docker.optionMounts app.dockerOptions
  else []

/-- The mounts whose source carries the application's own id, or that of a row of its own. -/
def own (app : Application) (volumes : List ApplicationVolume) : List Mount :=
  if app.compose then ((docker.composeVolumes app.branch).filter fun v => v.taken.isNone).map (·.mount app.id)
  else if Accepted app volumes then (volumes.filter fun v => (takenPath v).isNone).filterMap (rowMount app.id)
  else []

section Flags

theorem words_volumeFlags (volumes : List ApplicationVolume) (applicationId : Uuid) :
    words (volumeFlags volumes applicationId) =
      some (volumes.flatMap fun v => ["-v", mountSource applicationId v ++ ":" ++ v.mountPath]) := by
  have hflag : ∀ c ∈ "-v".toList, Plain c := by simp [Plain, isSpecial]
  have hcolon : ∀ c ∈ ":".toList, Plain c := by simp [Plain, isSpecial]
  have key : readWords .bare none (volumeFlags volumes applicationId).toList =
      some (volumes.flatMap fun v => ["-v".toList, (mountSource applicationId v ++ ":" ++ v.mountPath).toList]) := by
    induction volumes with
    | nil => simp [volumeFlags, readWords]
    | cons v volumes ih =>
        have hsplit : (volumeFlags (v :: volumes) applicationId).toList =
            "-v".toList ++ (' ' :: ((shellQuote (mountSource applicationId v)).toList ++
              (":".toList ++ ((shellQuote v.mountPath).toList ++ (' ' :: (volumeFlags volumes applicationId).toList))))) := by
          simp [volumeFlags]
        rw [hsplit, readWords_plain hflag (by decide), readWords_blank, readWords_quote, readWords_some hcolon,
          readWords_quote, readWords_blank, ih]
        simp
  rw [words, key, Option.map_some, List.map_flatMap]
  simp [String.append_assoc]

theorem readMounts_flags (volumes : List ApplicationVolume) (applicationId : Uuid) :
    readMounts (volumes.flatMap fun v => ["-v", mountSource applicationId v ++ ":" ++ v.mountPath]) =
      if ∀ v ∈ volumes, (rowMount applicationId v).isSome = true then some (volumes.filterMap (rowMount applicationId)) else none := by
  induction volumes with
  | nil => rfl
  | cons v volumes ih =>
      rw [List.flatMap_cons, List.cons_append, List.cons_append, List.nil_append, readMounts,
        if_pos rfl, ih]
      change (rowMount applicationId v).bind _ = _
      cases hv : rowMount applicationId v with
      | none => simp [hv]
      | some m =>
          by_cases hall : ∀ v ∈ volumes, (rowMount applicationId v).isSome = true
          · simp [hv]
          · rw [if_neg hall, if_neg fun h => hall fun u hu => h u (by simp [hu])]
            rfl

theorem mem_mounts (app : Application) (volumes : List ApplicationVolume) (m : Mount) :
    m ∈ mounts docker app volumes ↔ m ∈ own docker app volumes ∨ m ∈ taken docker app volumes := by
  by_cases hc : app.compose = true
  · simp only [mounts, own, taken, hc, if_true, List.mem_map, List.mem_filterMap, List.mem_filter]
    constructor
    · rintro ⟨v, hv, rfl⟩
      cases v with
      | named => exact Or.inl ⟨_, ⟨hv, rfl⟩, rfl⟩
      | within => exact Or.inl ⟨_, ⟨hv, rfl⟩, rfl⟩
      | elsewhere mount => exact Or.inr ⟨_, hv, rfl⟩
    · rintro (⟨v, ⟨hv, -⟩, rfl⟩ | ⟨v, hv, ht⟩)
      · exact ⟨v, hv, rfl⟩
      · cases v with
        | elsewhere mount => exact ⟨_, hv, Option.some.inj ht⟩
        | named => cases ht
        | within => cases ht
  · simp only [mounts, own, taken, hc, words_volumeFlags, Option.bind_some, readMounts_flags]
    by_cases ha : Accepted app volumes
    · have ha' : ∀ v ∈ volumes, (rowMount app.id v).isSome = true := ha
      simp only [ha, if_pos ha', if_true, Bool.false_eq_true, if_false, List.mem_append,
        List.mem_filterMap, List.mem_filter]
      constructor
      · rintro (⟨v, hv, hm⟩ | hm)
        · cases ht : takenPath v with
          | none => exact Or.inl ⟨v, ⟨hv, by simp [ht]⟩, hm⟩
          | some p => exact Or.inr (Or.inl ⟨v, ⟨hv, by simp [ht]⟩, hm⟩)
        · exact Or.inr (Or.inr hm)
      · rintro (⟨v, ⟨hv, -⟩, hm⟩ | ⟨v, ⟨hv, -⟩, hm⟩ | hm)
        · exact Or.inl ⟨v, hv, hm⟩
        · exact Or.inl ⟨v, hv, hm⟩
        · exact Or.inr hm
    · have ha' : ¬ ∀ v ∈ volumes, (rowMount app.id v).isSome = true := ha
      simp [ha, if_neg ha']

end Flags

section Own

/-- A source that carries the id of the application, or that of one of its rows. -/
def Owned (app : Uuid) (rows : List ApplicationVolume) (source : String) : Prop :=
  (∃ v ∈ rows, source = volumeName v.id) ∨ (∃ key, source = composeProjectName app ++ "_" ++ key) ∨
    ∃ rest, (∀ s ∈ rest.splitOn '/', s ≠ "..".toList) ∧
      source.toList = "/opt/yeah-apps/".toList ++ (app.text.toList ++ '/' :: rest)

theorem splitOn_cons {c : Char} {s t : List Char} (h : c ∉ s) :
    (s ++ c :: t).splitOn c = s :: t.splitOn c :=
  List.splitOn_append_cons_self_of_not_mem h t

theorem foldl_walk {l : List (List Char)} (h : ∀ s ∈ l, s ≠ "..".toList) (at_ : List (List Char)) :
    ∃ below, l.foldl walk at_ = at_ ++ below := by
  induction l generalizing at_ with
  | nil => exact ⟨[], by simp⟩
  | cons s l ih =>
      obtain ⟨below, hb⟩ := ih (fun t ht => h t (by simp [ht])) (walk at_ s)
      rw [List.foldl_cons, hb]
      by_cases hs : s = [] ∨ s = ".".toList
      · exact ⟨below, by rw [walk, if_pos hs]⟩
      · exact ⟨s :: below, by rw [walk, if_neg hs, if_neg (h s (by simp)), List.append_assoc]; rfl⟩

theorem segments_own (app : Uuid) {rest : List Char} (h : ∀ s ∈ rest.splitOn '/', s ≠ "..".toList) :
    ∃ below, segments ("/opt/yeah-apps/".toList ++ (app.text.toList ++ '/' :: rest)) =
      "opt".toList :: "yeah-apps".toList :: app.text.toList :: below := by
  have hslash : '/' ∉ app.text.toList := app.notMem (by decide) (by decide)
  have hsplit : ("/opt/yeah-apps/".toList ++ (app.text.toList ++ '/' :: rest)).splitOn '/' =
      [] :: "opt".toList :: "yeah-apps".toList :: app.text.toList :: rest.splitOn '/' := by
    change ([] ++ '/' :: ("opt".toList ++ '/' :: ("yeah-apps".toList ++ '/' :: (app.text.toList ++ '/' :: rest)))).splitOn '/' = _
    rw [splitOn_cons (by simp), splitOn_cons (by simp), splitOn_cons (by simp), splitOn_cons hslash]
  have hlen : app.text.toList.length = 36 := app.length_toList
  have happ : ¬ (app.text.toList = [] ∨ app.text.toList = ".".toList) := by
    rintro (h | h) <;> simp [h] at hlen
  have hdots : app.text.toList ≠ "..".toList := fun h => by simp [h] at hlen
  obtain ⟨below, hb⟩ := foldl_walk h ["opt".toList, "yeah-apps".toList, app.text.toList]
  refine ⟨below, ?_⟩
  rw [segments, hsplit]
  have hwalk : [[], "opt".toList, "yeah-apps".toList, app.text.toList].foldl walk [] =
      ["opt".toList, "yeah-apps".toList, app.text.toList] := by
    have htop : [[], "opt".toList, "yeah-apps".toList].foldl walk [] =
        ["opt".toList, "yeah-apps".toList] := by
      simp [walk]
    rw [show [[], "opt".toList, "yeah-apps".toList, app.text.toList] = [[], "opt".toList, "yeah-apps".toList] ++ [app.text.toList] from rfl,
      List.foldl_append, htop, List.foldl_cons, walk, if_neg happ, if_neg hdots]
    rfl
  rw [show ([] :: "opt".toList :: "yeah-apps".toList :: app.text.toList :: rest.splitOn '/') =
    [[], "opt".toList, "yeah-apps".toList, app.text.toList] ++ rest.splitOn '/' from rfl, List.foldl_append, hwalk, hb]
  rfl

theorem isPath_volumeName (id : Uuid) : isPath (volumeName id) = false := by simp [isPath, volumeName]

theorem isPath_project (app : Uuid) (key : String) :
    isPath (composeProjectName app ++ "_" ++ key) = false := by
  simp [isPath, composeProjectName]

theorem isPath_below {source : String} {t : List Char} (h : source.toList = "/opt/yeah-apps/".toList ++ t) :
    isPath source = true := by
  simp [isPath, h]

/-- Sources of different applications that carry ids have nothing in common. -/
theorem Owned.apart {a b : Uuid} {rows rows' : List ApplicationVolume} {s s' : String} (hab : a ≠ b)
    (hrows : ∀ v ∈ rows, ∀ v' ∈ rows', v.id ≠ v'.id) (h : Owned a rows s) (h' : Owned b rows' s') :
    ¬ Overlap s s' := by
  have hnames : (isPath s && isPath s') = false → s ≠ s' → ¬ Overlap s s' := fun hp hne => by
    rwa [Overlap, if_neg (by simp [hp])]
  rcases h with ⟨v, hv, rfl⟩ | ⟨key, rfl⟩ | ⟨rest, hrest, hs⟩
  · refine hnames (by simp [isPath_volumeName]) fun he => ?_
    rcases h' with ⟨v', hv', rfl⟩ | ⟨key', rfl⟩ | ⟨rest', -, hs'⟩
    · refine hrows v hv v' hv' (Uuid.ext_text ?_)
      simpa [volumeName] using he
    · have := congrArg (fun t : String => t.toList[5]?) he
      simp [volumeName, composeProjectName] at this
    · exact absurd (he ▸ isPath_below hs') (by simp [isPath_volumeName])
  · refine hnames (by simp [isPath_project]) fun he => ?_
    rcases h' with ⟨v', hv', rfl⟩ | ⟨key', rfl⟩ | ⟨rest', -, hs'⟩
    · have := congrArg (fun t : String => t.toList[5]?) he
      simp [volumeName, composeProjectName] at this
    · have ht := congrArg String.toList he
      simp only [composeProjectName, String.toList_append, List.append_assoc] at ht
      have hids :=
        (List.append_inj (List.append_cancel_left ht) (by rw [a.length_toList, b.length_toList])).1
      exact hab (Uuid.ext_text (String.toList_inj.1 hids))
    · exact absurd (he ▸ isPath_below hs') (by simp [isPath_project])
  · rcases h' with ⟨v', hv', rfl⟩ | ⟨key', rfl⟩ | ⟨rest', hrest', hs'⟩
    · exact hnames (by simp [isPath_volumeName])
        fun he => absurd (he ▸ isPath_below hs) (by simp [isPath_volumeName])
    · exact hnames (by simp [isPath_project]) fun he => absurd (he ▸ isPath_below hs) (by simp [isPath_project])
    · obtain ⟨below, hb⟩ := segments_own a hrest
      obtain ⟨below', hb'⟩ := segments_own b hrest'
      have htext : a.text.toList ≠ b.text.toList := fun h => hab (Uuid.ext_text (String.toList_inj.1 h))
      rw [Overlap, isPath_below hs, isPath_below hs', Bool.and_self, if_pos rfl, hs, hs', hb, hb']
      rintro (hp | hp)
      · simp only [List.cons_prefix_cons, true_and] at hp
        exact htext hp.1
      · simp only [List.cons_prefix_cons, true_and] at hp
        exact htext hp.1.symm

/-- A source without a colon is read whole; the rest of the word decides on its own what becomes of it. -/
theorem readMount_named {source : String} (h : ':' ∉ source.toList) (target : String) :
    readMount (source ++ ":" ++ target) = (readMount (":" ++ target)).map fun m => { m with source } := by
  have hword : (source ++ ":" ++ target).toList.splitOn ':' =
      source.toList :: target.toList.splitOn ':' := by
    rw [show (source ++ ":" ++ target).toList = source.toList ++ ':' :: target.toList by simp,
      splitOn_cons h]
  have hrest : (":" ++ target).toList.splitOn ':' = [] :: target.toList.splitOn ':' := by
    rw [show (":" ++ target).toList = [] ++ ':' :: target.toList by simp, splitOn_cons (by simp)]
  rw [readMount, readMount, hword, hrest]
  rcases target.toList.splitOn ':' with - | ⟨t, - | ⟨mode, - | ⟨more, rest⟩⟩⟩
  · rfl
  · simp
  · dsimp only
    split_ifs <;> simp
  · rfl

theorem notMem_ownSource (applicationId : Uuid) (v : ApplicationVolume) (h : takenPath v = none) :
    ':' ∉ (mountSource applicationId v).toList := by
  have hcolon (id : Uuid) : ':' ∉ id.text.toList := id.notMem (by decide) (by decide)
  rw [mountSource, h]
  dsimp only
  split_ifs <;> simp [volumeFilePath_toList, volumeName, hcolon]

theorem rowMount_own {applicationId : Uuid} {v : ApplicationVolume} (h : takenPath v = none) :
    rowMount applicationId v = (readMount (":" ++ v.mountPath)).map fun m => { m with source := mountSource applicationId v } :=
  readMount_named (notMem_ownSource applicationId v h) v.mountPath

theorem own_owned {app : Application} {volumes : List ApplicationVolume} {m : Mount}
    (h : m ∈ own docker app volumes) :
    Owned app.id volumes m.source := by
  rw [own] at h
  split at h
  · simp only [List.mem_map, List.mem_filter] at h
    obtain ⟨v, ⟨-, hv⟩, rfl⟩ := h
    cases v with
    | named key target writable => exact Or.inr (Or.inl ⟨key, rfl⟩)
    | within path inside target writable =>
        refine Or.inr (Or.inr ⟨"repo".toList ++ '/' :: path.toList, ?_, by simp [mount_within_toList]⟩)
        rw [splitOn_cons (by simp)]
        intro s hs
        rcases List.mem_cons.1 hs with rfl | hs
        · simp
        · exact inside s hs
    | elsewhere mount => cases hv
  · split at h
    · simp only [List.mem_filterMap, List.mem_filter, Option.isNone_iff_eq_none] at h
      obtain ⟨v, ⟨hv, ht⟩, hm⟩ := h
      rw [rowMount_own ht] at hm
      obtain ⟨m', -, rfl⟩ := Option.map_eq_some_iff.1 hm
      rw [mountSource, ht]
      dsimp only
      split
      · refine Or.inr (Or.inr ⟨"files".toList ++ '/' :: v.id.text.toList, ?_, by simp [volumeFilePath_toList]⟩)
        have hslash : '/' ∉ v.id.text.toList := v.id.notMem (by decide) (by decide)
        rw [splitOn_cons (by simp), List.splitOn_eq_singleton hslash]
        intro s hs
        simp only [List.mem_cons, List.not_mem_nil, or_false] at hs
        rcases hs with rfl | rfl
        · simp
        · intro he
          have := v.id.length_toList
          simp [he] at this
      · exact Or.inl ⟨v, hv, rfl⟩
    · cases h

end Own

end Yeah.Volume
