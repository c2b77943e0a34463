import Yeah.Text.Lines
import Yeah.Text.Replace
import Yeah.Text.Space
import Yeah.Text.Uuid
import Mathlib.Data.Bool.AllAny

namespace Yeah.Images

open Text

structure DockerImageInfo where
  /-- Short image id (12 hex chars). -/
  id : String
  repository : String
  tag : String
  ref : String
  size : String
  created : String
  /-- Some container (running or stopped) was created from this image. -/
  inUse : Bool

def parts (line : List Char) : List (List Char) := line.splitOn '|'

/-- `parts[i]!.trim()` -/
def part (line : List Char) (i : Nat) : String := trim (String.ofList ((parts line)[i]?.getD []))

/-- `parts[0] === label && parts[1]` -/
def idAfter (label : List Char) (line : List Char) : Option String :=
  if (parts line).head? = some label ∧ (parts line)[1]?.getD [] ≠ [] then some (part line 1) else none

def isImageLine (line : List Char) : Bool :=
  (parts line).head? = some "IMG".toList ∧ 6 ≤ (parts line).length

def shortId (fullId : String) : String :=
  let text := fullId.toList
  String.ofList ((if "sha256:".toList <+: text then text.drop 7 else text).take 12)

/-- "repo:tag" or the short id when the image is untagged. -/
def imageRef (fullId repository tag : String) : String :=
  if repository = "<none>" ∨ tag = "<none>" then shortId fullId else repository ++ ":" ++ tag

def readImage (used : List String) (line : List Char) : DockerImageInfo where
  id := shortId (part line 1)
  repository := part line 2
  tag := part line 3
  ref := imageRef (part line 1) (part line 2) (part line 3)
  size := part line 4
  created := part line 5
  inUse := used.contains (part line 1)

def parseDockerImages (output : List Char) : List DockerImageInfo :=
  let used := (lines output).filterMap (idAfter "USED".toList)
  ((lines output).filter isImageLine).map (readImage used)

/-- The local repository name the application's image is built under. -/
def appImageRepository (applicationId : Uuid) : String := "yeah-app-" ++ applicationId.text

def isHexDigit (c : Char) : Bool := ('0' ≤ c ∧ c ≤ '9') ∨ ('a' ≤ c ∧ c ≤ 'f')

/-- `/^dep-[0-9a-f]{12}$/` -/
def isDeploymentTag (tag : String) : Bool :=
  "dep-".toList <+: tag.toList ∧ (tag.toList.drop 4).length = 12 ∧ (tag.toList.drop 4).all isHexDigit

structure AppImage where
  id : String
  ref : String
  tag : String
  size : String
  created : String
  deploymentTag : Option String
  /-- The running container was created from this image. -/
  running : Bool

/-- Rows of other repositories are ignored; the others are parsed a second time, and matched with their ids by index. -/
def parseAppImages (output : List Char) (applicationId : Uuid) : List AppImage :=
  let running := (lines output).filterMap (idAfter "RUN".toList)
  let imgLines :=
    (lines output).filter fun line => isImageLine line && part line 2 = appImageRepository applicationId
  let fullIds := imgLines.map fun line => part line 1
  (parseDockerImages (['\n'].intercalate imgLines)).mapIdx fun i info =>
    { id := info.id, ref := info.ref, tag := info.tag, size := info.size, created := info.created,
      deploymentTag := if isDeploymentTag info.tag then some info.tag else none,
      running := (fullIds[i]?).any running.contains }

section Docker

/-- A field that docker prints between bars. -/
structure Field where
  text : String
  plain : ∀ c ∈ text.toList, c ≠ '|' ∧ c ≠ '\n' ∧ c ≠ '\r'
  trimmed : trim text = text

structure ImageId where
  digits : String
  hex : ∀ c ∈ digits.toList, isHexDigit c
  length_eq : digits.toList.length = 64
  deriving DecidableEq

namespace ImageId

variable (id : ImageId)

def text : String := "sha256:" ++ id.digits

def short : String := String.ofList (id.digits.toList.take 12)

end ImageId

/-- An image under one of its tags. -/
structure Row where
  id : ImageId
  repository : Field
  tag : Field
  size : Field
  created : Field

structure Container where
  image : ImageId
  running : Bool

structure Docker where
  rows : List Row
  containers : List Container

namespace Row

variable (r : Row)

def fields : List (List Char) :=
  ["IMG".toList, r.id.text.toList, r.repository.text.toList, r.tag.text.toList, r.size.text.toList, r.created.text.toList]

def line : List Char := ['|'].intercalate r.fields

def ref : String := imageRef r.id.text r.repository.text r.tag.text

end Row

def idLine (label : List Char) (id : ImageId) : List Char := label ++ '|' :: id.text.toList

def print (ls : List (List Char)) : List Char := ls.flatMap (· ++ ['\n'])

/-- What `dockerImagesCommand` prints. -/
def Docker.listing (d : Docker) : List Char :=
  print (d.rows.map Row.line ++ (d.containers.map Container.image).map (idLine "USED".toList))

/-- What `appImagesCommand` prints: the images that the filter leaves, and the image of the application's container. -/
def appListing (rows : List Row) (running : Option ImageId) : List Char :=
  print (rows.map Row.line ++ running.toList.map (idLine "RUN".toList))

def Docker.uses (d : Docker) (id : ImageId) : Bool := d.containers.any fun c => c.image = id

theorem hex_range {c : Char} (h : isHexDigit c) : 48 ≤ c.toNat ∧ c.toNat ≤ 102 := by
  simp only [isHexDigit, Bool.decide_or, Bool.decide_and, Bool.or_eq_true, Bool.and_eq_true,
    decide_eq_true_eq, Char.le_def, UInt32.le_iff_toNat_le] at h
  change ((48 ≤ c.toNat ∧ c.toNat ≤ 57) ∨ (97 ≤ c.toNat ∧ c.toNat ≤ 102)) at h
  omega

namespace ImageId

variable (id : ImageId)

theorem text_toList : id.text.toList = "sha256:".toList ++ id.digits.toList := String.toList_append

theorem text_inj {a b : ImageId} : a.text = b.text ↔ a = b := by
  constructor
  · intro h
    have hdigits : a.digits = b.digits := by
      apply String.toList_inj.1
      have htext : "sha256:".toList ++ a.digits.toList = "sha256:".toList ++ b.digits.toList := by
        rw [← text_toList, ← text_toList, h]
      exact List.append_cancel_left htext
    cases a
    cases b
    cases hdigits
    rfl
  · rintro rfl
    rfl

theorem text_range {c : Char} (h : c ∈ id.text.toList) : 48 ≤ c.toNat ∧ c.toNat ≤ 122 := by
  rw [text_toList] at h
  rcases List.mem_append.1 h with h | h
  · have hprefix : ∀ c ∈ "sha256:".toList, 48 ≤ c.toNat ∧ c.toNat ≤ 122 :=
      List.all_iff_forall_prop.1 (by decide)
    exact hprefix c h
  · exact (hex_range (id.hex c h)).imp_right fun hle => by omega

theorem not_mem_text {c : Char} (h : c.toNat < 48 ∨ 122 < c.toNat) : c ∉ id.text.toList := fun hc => by
  have hrange := id.text_range hc
  omega

theorem trim_text : trim id.text = id.text := by
  apply trim_of_none
  intro c hc
  have hrange := id.text_range hc
  exact isSpace_of_range (by omega)

theorem shortId_text : shortId id.text = id.short := by
  rw [shortId, text_toList, if_pos (List.prefix_append _ _)]
  rfl

end ImageId

namespace Row

variable (r : Row)

theorem parts_line : parts r.line = r.fields := by
  apply List.splitOn_intercalate
  · intro l hl
    simp only [fields, List.mem_cons, List.not_mem_nil, or_false] at hl
    rcases hl with rfl | rfl | rfl | rfl | rfl | rfl
    · decide
    · exact r.id.not_mem_text (by decide)
    · exact fun h => (r.repository.plain _ h).1 rfl
    · exact fun h => (r.tag.plain _ h).1 rfl
    · exact fun h => (r.size.plain _ h).1 rfl
    · exact fun h => (r.created.plain _ h).1 rfl
  · exact List.cons_ne_nil _ _

theorem line_plain : '\n' ∉ r.line ∧ '\r' ∉ r.line := by
  have hplain (c : Char) (hc : c = '\n' ∨ c = '\r') : c ∉ r.line := by
    intro h
    rcases mem_intercalate h with h | ⟨l, hl, h⟩
    · rcases hc with rfl | rfl <;> simp at h
    · simp only [fields, List.mem_cons, List.not_mem_nil, or_false] at hl
      have hfield (f : Field) : c ∉ f.text.toList := fun h => hc.elim (f.plain c h).2.1 (f.plain c h).2.2
      rcases hl with rfl | rfl | rfl | rfl | rfl | rfl
      · rcases hc with rfl | rfl <;> simp at h
      · exact r.id.not_mem_text (by rcases hc with rfl | rfl <;> decide) h
      · exact hfield _ h
      · exact hfield _ h
      · exact hfield _ h
      · exact hfield _ h
  exact ⟨hplain _ (Or.inl rfl), hplain _ (Or.inr rfl)⟩

theorem isImageLine_line : isImageLine r.line = true := by
  rw [isImageLine, parts_line]
  rfl

theorem idAfter_line {label : List Char} (h : label ≠ "IMG".toList) : idAfter label r.line = none := by
  rw [idAfter, parts_line, if_neg]
  rintro ⟨hlabel, -⟩
  exact h (Option.some_inj.1 hlabel).symm

theorem part_line : part r.line 1 = r.id.text ∧ part r.line 2 = r.repository.text ∧
    part r.line 3 = r.tag.text ∧
    part r.line 4 = r.size.text ∧ part r.line 5 = r.created.text := by
  have hfield (f : Field) : trim (String.ofList f.text.toList) = f.text := by
    rw [String.ofList_toList, f.trimmed]
  have hid : trim (String.ofList r.id.text.toList) = r.id.text := by
    rw [String.ofList_toList, r.id.trim_text]
  simp only [part, parts_line]
  exact ⟨hid, hfield _, hfield _, hfield _, hfield _⟩

def info (uses : ImageId → Bool) : DockerImageInfo where
  id := r.id.short
  repository := r.repository.text
  tag := r.tag.text
  ref := r.ref
  size := r.size.text
  created := r.created.text
  inUse := uses r.id

theorem readImage_line {used : List String} {uses : ImageId → Bool}
    (h : used.contains r.id.text = uses r.id) :
    readImage used r.line = r.info uses := by
  obtain ⟨hid, hrepository, htag, hsize, hcreated⟩ := r.part_line
  simp only [readImage, info, hid, hrepository, htag, hsize, hcreated, h, r.id.shortId_text]
  rfl

end Row

section IdLine

variable {label : List Char} (id : ImageId)

theorem parts_idLine (h : '|' ∉ label) : parts (idLine label id) = [label, id.text.toList] := by
  rw [parts, idLine, List.splitOn_append_cons_self_of_not_mem h,
    List.splitOn_eq_singleton (id.not_mem_text (by decide))]

theorem idLine_plain (h : '\n' ∉ label ∧ '\r' ∉ label) :
    '\n' ∉ idLine label id ∧ '\r' ∉ idLine label id := by
  simp only [idLine, List.mem_append, List.mem_cons, not_or]
  exact ⟨⟨h.1, by decide, id.not_mem_text (by decide)⟩, ⟨h.2, by decide, id.not_mem_text (by decide)⟩⟩

theorem isImageLine_idLine (h : '|' ∉ label) : isImageLine (idLine label id) = false := by
  rw [isImageLine, parts_idLine id h]
  simp

theorem idAfter_idLine (h : '|' ∉ label) : idAfter label (idLine label id) = some id.text := by
  have hne : id.text.toList ≠ [] := by
    rw [id.text_toList]
    exact List.append_ne_nil_of_left_ne_nil (by decide) _
  rw [idAfter, part, parts_idLine id h, if_pos ⟨rfl, hne⟩]
  change some (trim (String.ofList id.text.toList)) = _
  rw [String.ofList_toList, id.trim_text]

end IdLine

section Read

variable (rows : List Row)

theorem filter_rows : (rows.map Row.line).filter isImageLine = rows.map Row.line :=
  List.filter_eq_self.2 fun _ hl => by
    obtain ⟨r, -, rfl⟩ := List.mem_map.1 hl
    exact r.isImageLine_line

theorem lines_print {label : List Char} (h : '\n' ∉ label ∧ '\r' ∉ label) (ids : List ImageId) :
    lines (print (rows.map Row.line ++ ids.map (idLine label))) = rows.map Row.line ++
      ids.map (idLine label) ++ [[]] := by
  apply lines_flatMap
  intro line hl
  rcases List.mem_append.1 hl with hl | hl
  · obtain ⟨r, -, rfl⟩ := List.mem_map.1 hl
    exact r.line_plain
  · obtain ⟨id, -, rfl⟩ := List.mem_map.1 hl
    exact idLine_plain id h

theorem filterMap_idAfter {label : List Char} (hlabel : label ≠ "IMG".toList) (hne : label ≠ [])
    (h : '|' ∉ label) (ids : List ImageId) :
    (rows.map Row.line ++ ids.map (idLine label) ++ [[]]).filterMap (idAfter label) = ids.map ImageId.text := by
  have hrows : (rows.map Row.line).filterMap (idAfter label) = [] := by
    rw [List.filterMap_eq_nil_iff]
    intro l hl
    obtain ⟨r, -, rfl⟩ := List.mem_map.1 hl
    exact r.idAfter_line hlabel
  have hids : (ids.map (idLine label)).filterMap (idAfter label) = ids.map ImageId.text := by
    rw [List.filterMap_map, ← List.filterMap_eq_map]
    exact List.filterMap_congr fun id _ => idAfter_idLine id h
  have hlast : idAfter label [] = none := by
    rw [idAfter, if_neg]
    rintro ⟨he, -⟩
    exact hne (Option.some_inj.1 he).symm
  rw [List.filterMap_append, List.filterMap_append, hrows, hids, List.filterMap_cons_none hlast, List.filterMap_nil, List.nil_append,
    List.append_nil]

theorem filter_listing {label : List Char} (h : '|' ∉ label) (ids : List ImageId) :
    (rows.map Row.line ++ ids.map (idLine label) ++ [[]]).filter isImageLine = rows.map Row.line := by
  have hids : (ids.map (idLine label)).filter isImageLine = [] := by
    rw [List.filter_eq_nil_iff]
    intro l hl
    obtain ⟨id, -, rfl⟩ := List.mem_map.1 hl
    rw [isImageLine_idLine id h]
    exact Bool.false_ne_true
  have hlast : isImageLine [] = false := rfl
  rw [List.filter_append, List.filter_append, filter_rows, hids, List.filter_cons_of_neg (by simp [hlast]), List.filter_nil,
    List.append_nil, List.append_nil]

theorem contains_text (ids : List ImageId) (id : ImageId) :
    (ids.map ImageId.text).contains id.text = ids.contains id := by
  rw [Bool.eq_iff_iff, List.contains_iff_mem, List.contains_iff_mem]
  constructor
  · intro h
    obtain ⟨id', hid, he⟩ := List.mem_map.1 h
    exact ImageId.text_inj.1 he ▸ hid
  · exact List.mem_map_of_mem

/-- The listing is read back row by row. -/
theorem parseDockerImages_listing (d : Docker) :
    parseDockerImages d.listing = d.rows.map fun r => r.info d.uses := by
  have huses (id : ImageId) : ((d.containers.map Container.image).map ImageId.text).contains id.text = d.uses id := by
    rw [contains_text, Docker.uses, Bool.eq_iff_iff, List.contains_iff_mem, List.mem_map,
      List.any_eq_true]
    exact exists_congr fun c => and_congr_right fun _ => decide_eq_true_iff.symm
  rw [parseDockerImages, Docker.listing, lines_print d.rows (by decide)]
  rw [filterMap_idAfter d.rows (by decide) (by decide) (by decide), filter_listing d.rows (by decide),
    List.map_map]
  exact List.map_congr_left fun r _ => r.readImage_line (huses r.id)

theorem parseDockerImages_rows :
    parseDockerImages (['\n'].intercalate (rows.map Row.line)) = rows.map fun r => r.info fun _ => false := by
  rw [parseDockerImages]
  by_cases hne : rows = []
  · subst hne
    rfl
  · have hlines : lines (['\n'].intercalate (rows.map Row.line)) = rows.map Row.line := by
      apply lines_intercalate
      · intro l hl
        obtain ⟨r, -, rfl⟩ := List.mem_map.1 hl
        exact r.line_plain
      · simpa using hne
    have hused : (rows.map Row.line).filterMap (idAfter "USED".toList) = [] := by
      rw [List.filterMap_eq_nil_iff]
      intro l hl
      obtain ⟨r, -, rfl⟩ := List.mem_map.1 hl
      exact r.idAfter_line (by decide)
    rw [hlines, hused, filter_rows, List.map_map]
    exact List.map_congr_left fun r _ => r.readImage_line rfl

def Row.appImage (r : Row) (running : Option ImageId) : AppImage where
  id := r.id.short
  ref := r.ref
  tag := r.tag.text
  size := r.size.text
  created := r.created.text
  deploymentTag := if isDeploymentTag r.tag.text then some r.tag.text else none
  running := running.toList.contains r.id

theorem parseAppImages_listing (running : Option ImageId) (applicationId : Uuid) :
    parseAppImages (appListing rows running) applicationId =
      (rows.filter fun r => r.repository.text = appImageRepository applicationId).map fun r => r.appImage running := by
  have hfilter : (rows.map Row.line ++ running.toList.map (idLine "RUN".toList) ++ [[]]).filter
        (fun line => isImageLine line && decide (part line 2 = appImageRepository applicationId)) =
      (rows.filter fun r => r.repository.text = appImageRepository applicationId).map Row.line := by
    rw [← List.filter_filter, List.filter_comm, filter_listing rows (by decide), List.filter_map]
    refine congrArg (List.map Row.line) (List.filter_congr fun r _ => ?_)
    rw [Function.comp_apply, r.part_line.2.1]
  rw [parseAppImages, appListing, lines_print rows (by decide)]
  have hids (own : List Row) : (own.map Row.line).map (fun line => part line 1) =
      own.map fun r => r.id.text := by
    rw [List.map_map]
    exact List.map_congr_left fun r _ => r.part_line.1
  rw [filterMap_idAfter rows (by decide) (by decide) (by decide), hfilter, parseDockerImages_rows, hids]
  apply List.ext_getElem
  · simp
  · intro i h h'
    have hi : i < (rows.filter fun r => r.repository.text = appImageRepository applicationId).length := by
      simpa using h'
    simp only [List.getElem_mapIdx, List.getElem_map, List.getElem?_map, List.getElem?_eq_getElem hi, Option.map_some, Option.any_some,
      contains_text]
    rfl

end Read

end Docker

end Yeah.Images
