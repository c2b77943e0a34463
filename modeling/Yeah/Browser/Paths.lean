import Yeah.Environments
import Yeah.Text.Space
import Yeah.Text.Replace
import Mathlib.Algebra.Order.BigOperators.Group.List
import Mathlib.Algebra.Order.Ring.Nat
import Mathlib.Data.List.DropRight
import Mathlib.Data.Bool.AllAny

namespace Yeah.Browser

open Text

def MAX_BROWSER_PATH : Nat := 1024

/-- `[\u0000-\u001f\u007f]` -/
def isControl (c : Char) : Bool := c.toNat ≤ 0x1F || c.toNat = 0x7F

def segments (path : List Char) : List (List Char) := (path.splitOn '/').filter (· ≠ [])

def render (segs : List (List Char)) : List Char := '/' :: ['/'].intercalate segs

def normalizeBrowserPath (path : String) : Option String :=
  if path.toList = [] || utf16Length path > MAX_BROWSER_PATH || path.toList.head? ≠ some '/' then none
  else if path.toList.any isControl then none
  else
    let segs := segments path.toList
    if segs.any fun s => s = ['.'] || s = ['.', '.'] || utf16Length (String.ofList s) > 255 then none
    else some (String.ofList (render segs))

def isValidEntryName (name : String) : Bool :=
  if name.toList = [] || utf16Length name > 255 then false
  else if name = "." || name = ".." || '/' ∈ name.toList then false
  else !name.toList.any isControl

inductive FileWriteOp
  | save
  | upload
  | mkdir
  | delete
  deriving DecidableEq

def PSEUDO_FS : List String := ["/proc", "/sys", "/dev"]

def toLowerCase (s : String) : List Char := s.toList.flatMap Environments.lower

def writeRefusal (path : String) (op : FileWriteOp) : Option String :=
  if normalizeBrowserPath path ≠ some path then some "invalid path"
  else if path = "/" then some "the root cannot be changed"
  else if PSEUDO_FS.any fun p => path = p || (p ++ "/").toList <+: path.toList then some "this location cannot be changed"
  else if ".sock".toList <:+ toLowerCase path then some "sockets cannot be changed"
  else if op = .delete ∧ (segments path.toList).length < 2 then some "top-level folders cannot be deleted"
  else none

/-- `replace(/\/+$/, "")` -/
def dropSlashes (path : List Char) : List Char := path.rdropWhile (· = '/')

def joinBrowserPath (dir name : String) : String :=
  if dir = "/" then "/" ++ name else String.ofList (dropSlashes dir.toList) ++ "/" ++ name

/-- The last slash of the path without trailing ones is the last character of `front`. -/
def parentBrowserPath (path : String) : String :=
  let front := (dropSlashes path.toList).rdropWhile (· ≠ '/')
  if front.length ≤ 1 then "/" else String.ofList front.dropLast

/-! ### Normal forms -/

def follow (stack : List (List Char)) (s : List Char) : List (List Char) :=
  if s = [] ∨ s = ['.'] then stack else if s = ['.', '.'] then stack.dropLast else stack ++ [s]

def lexical (path : List Char) : List Char := render ((path.splitOn '/').foldl follow [])

structure Segment (s : List Char) : Prop where
  nonempty : s ≠ []
  slash : '/' ∉ s
  dot : s ≠ ['.']
  dots : s ≠ ['.', '.']

def Canonical (path : List Char) : Prop := ∃ segs, (∀ s ∈ segs, Segment s) ∧ path = render segs

def Kernel (path : List Char) : Prop :=
  ∃ name ∈ ["proc".toList, "sys".toList, "dev".toList], (segments path).head? = some name

/-- The name ends in `.sock`, in any case. -/
def Socket (path : List Char) : Prop :=
  ∃ front ending, path = front ++ ending ∧ ending.map Char.toLower = ".sock".toList

section Segments

variable {segs : List (List Char)} {path s : List Char}

theorem segment_parts (h : s ∈ segments path) : s ≠ [] ∧ '/' ∉ s := by
  obtain ⟨hmem, hne⟩ := List.mem_filter.1 h
  exact ⟨by simpa using hne, notMem_of_mem_splitOn hmem⟩

theorem segments_render (h : ∀ s ∈ segs, s ≠ [] ∧ '/' ∉ s) : segments (render segs) = segs := by
  have hhead : ∀ l : List Char, ('/' :: l).splitOn '/' = [] :: l.splitOn '/' :=
    fun l => by simp [List.splitOn_cons_eq_if_modifyHead]
  rw [segments, render, hhead, List.filter_cons_of_neg (by simp)]
  cases segs with
  | nil => rfl
  | cons s segs =>
      rw [List.splitOn_intercalate _ (fun l hl => (h l hl).2) (List.cons_ne_nil _ _), List.filter_eq_self]
      exact fun l hl => by simpa using (h l hl).1

theorem Canonical.segments_eq (h : ∀ s ∈ segs, Segment s) : segments (render segs) = segs :=
  segments_render fun s hs => ⟨(h s hs).nonempty, (h s hs).slash⟩

theorem render_cons (s : List Char) (segs : List (List Char)) :
    render (s :: segs) = '/' :: (s ++ if segs = [] then [] else render segs) := by
  cases segs with
  | nil => simp [render]
  | cons t segs => simp [render, List.intercalate_cons_cons]

theorem foldl_follow (acc : List (List Char)) (pieces : List (List Char))
    (h : ∀ s ∈ pieces, s ≠ ['.'] ∧ s ≠ ['.', '.']) :
    pieces.foldl follow acc = acc ++ pieces.filter (· ≠ []) := by
  induction pieces generalizing acc with
  | nil => simp
  | cons s pieces ih =>
      obtain ⟨hs, hrest⟩ := List.forall_mem_cons.1 h
      rw [List.foldl_cons, ih _ hrest]
      by_cases hnil : s = []
      · simp [follow, hnil]
      · simp [follow, hnil, hs.1, hs.2]

theorem lexical_eq (h : ∀ s ∈ segments path, s ≠ ['.'] ∧ s ≠ ['.', '.']) :
    lexical path = render (segments path) := by
  rw [lexical, foldl_follow, List.nil_append, segments]
  intro s hs
  by_cases hnil : s = []
  · simp [hnil]
  · exact h s (List.mem_filter.2 ⟨hs, by simpa using hnil⟩)

theorem render_concat (segs : List (List Char)) (s : List Char) :
    render (segs ++ [s]) = (if segs = [] then [] else render segs) ++ '/' :: s := by
  induction segs with
  | nil => simp [render]
  | cons t segs ih =>
      rw [List.cons_append, render_cons, render_cons, ih]
      simp

theorem intercalate_sublist {ls ms : List (List Char)} (h : ls.Sublist ms) :
    (['/'].intercalate ls).Sublist (['/'].intercalate ms) := by
  induction h with
  | slnil => exact List.Sublist.refl _
  | @cons ls ms s h ih =>
      cases ms with
      | nil => exact ih.trans (List.nil_sublist _)
      | cons t ms =>
          rw [List.intercalate_cons_cons]
          exact ih.trans (List.sublist_append_right _ _)
  | @cons_cons ls ms s h ih =>
      cases ls with
      | nil =>
          rw [List.intercalate_singleton]
          cases ms with
          | nil => rw [List.intercalate_singleton]
          | cons t ms =>
              rw [List.intercalate_cons_cons, List.append_assoc]
              exact List.sublist_append_left _ _
      | cons u ls =>
          obtain ⟨t, ms, rfl⟩ : ∃ t ms', ms = t :: ms' := by
            cases ms with
            | nil => exact absurd h.length_le (by simp)
            | cons t ms => exact ⟨t, ms, rfl⟩
          rw [List.intercalate_cons_cons, List.intercalate_cons_cons]
          exact ih.append_left _

theorem render_segments_sublist (h : path.head? = some '/') : (render (segments path)).Sublist path := by
  cases path with
  | nil => cases h
  | cons c rest =>
      obtain rfl : c = '/' := by simpa using h
      have hpieces : segments ('/' :: rest) = (rest.splitOn '/').filter (· ≠ []) := by
        simp [segments, List.splitOn_cons_eq_if_modifyHead]
      have hrest := intercalate_sublist (List.filter_sublist (p := (· ≠ [])) (l := rest.splitOn '/'))
      rw [List.intercalate_splitOn] at hrest
      rw [hpieces]
      exact hrest.cons_cons '/'

end Segments

/-! ### Accepted paths -/

/-- What the checks ask of a path. -/
structure Accepted (path : String) : Prop where
  absolute : path.toList.head? = some '/'
  length : utf16Length path ≤ MAX_BROWSER_PATH
  controls : ∀ c ∈ path.toList, isControl c = false
  segs : ∀ s ∈ segments path.toList, s ≠ ['.'] ∧ s ≠ ['.', '.'] ∧ utf16Length (String.ofList s) ≤ 255

section Normal

variable {path dir name q : String} {segs : List (List Char)} {op : FileWriteOp}

theorem normalizeBrowserPath_eq_some : normalizeBrowserPath path = some q ↔
    Accepted path ∧ q = String.ofList (render (segments path.toList)) := by
  constructor
  · intro h
    simp only [normalizeBrowserPath] at h
    split_ifs at h with hguard hcontrol hsegs
    simp only [Bool.or_eq_true, decide_eq_true_eq, not_or, not_lt, not_not] at hguard
    refine ⟨⟨hguard.2, hguard.1.2, by simpa using hcontrol, fun s hs => ?_⟩, (Option.some.inj h).symm⟩
    have hbad : ¬ ((decide (s = ['.']) || decide (s = ['.', '.']) || decide (utf16Length (String.ofList s) > 255)) = true) :=
      fun hb => hsegs (List.any_eq_true.2 ⟨s, hs, hb⟩)
    simp only [Bool.or_eq_true, decide_eq_true_eq, not_or, not_lt] at hbad
    exact ⟨hbad.1.1, hbad.1.2, hbad.2⟩
  · rintro ⟨h, rfl⟩
    simp only [normalizeBrowserPath]
    have hne : path.toList ≠ [] := fun hnil => by simpa [hnil] using h.absolute
    rw [if_neg (by simpa [hne, h.absolute] using h.length), if_neg (by simpa using h.controls), if_neg]
    rw [Bool.not_eq_true, List.any_eq_false]
    intro s hs
    simpa [not_or, and_assoc] using h.segs s hs

theorem Accepted.segment (h : Accepted path) {s : List Char} (hs : s ∈ segments path.toList) :
    Segment s :=
  ⟨(segment_parts hs).1, (segment_parts hs).2, (h.segs s hs).1, (h.segs s hs).2.1⟩

theorem Accepted.normal (h : Accepted path) :
    Accepted (String.ofList (render (segments path.toList))) := by
  have hsub := render_segments_sublist h.absolute
  refine ⟨by rw [String.toList_ofList]; rfl, ?_, fun c hc => h.controls c (hsub.subset ?_),
    fun s hs => h.segs s ?_⟩
  · exact Nat.le_trans (List.Sublist.sum_le_sum (by simpa using hsub.map _) (by simp)) h.length
  · simpa using hc
  · rwa [String.toList_ofList, Canonical.segments_eq fun s hs => h.segment hs] at hs

/-- The first part: a normal form, and a fixed point. -/
theorem normalize_sound (h : normalizeBrowserPath path = some q) :
    path.toList.head? = some '/' ∧ q.toList = lexical path.toList ∧ Canonical q.toList ∧
      normalizeBrowserPath q = some q := by
  obtain ⟨hpath, rfl⟩ := normalizeBrowserPath_eq_some.1 h
  refine ⟨hpath.absolute, ?_, ⟨_, fun s hs => hpath.segment hs, String.toList_ofList⟩, ?_⟩
  · rw [lexical_eq fun s hs => ⟨(hpath.segs s hs).1, (hpath.segs s hs).2.1⟩, String.toList_ofList]
  · refine normalizeBrowserPath_eq_some.2 ⟨hpath.normal, ?_⟩
    rw [String.toList_ofList, Canonical.segments_eq fun s hs => hpath.segment hs]

/-! ### What may be written -/

theorem kernel_guarded (hpath : path.toList = render (segments path.toList))
    (hkernel : Kernel path.toList) :
    (PSEUDO_FS.any fun p => path = p || (p ++ "/").toList <+: path.toList) = true := by
  obtain ⟨name, hname, hhead⟩ := hkernel
  obtain ⟨rest, hrest⟩ : ∃ rest, segments path.toList = name :: rest := by
    cases hs : segments path.toList with
    | nil => simp [hs] at hhead
    | cons s rest => exact ⟨rest, by rw [hs, List.head?_cons, Option.some.injEq] at hhead; rw [hhead]⟩
  rw [hrest, render_cons] at hpath
  have hguard : path.toList = '/' :: name ∨ '/' :: name ++ ['/'] <+: path.toList := by
    by_cases hnil : rest = []
    · exact Or.inl (by simpa [hnil] using hpath)
    · refine Or.inr ⟨['/'].intercalate rest, ?_⟩
      rw [hpath, if_neg hnil]
      simp [render]
  have hmem : String.ofList ('/' :: name) ∈ PSEUDO_FS := by
    simp only [List.mem_cons, List.not_mem_nil, or_false] at hname
    rcases hname with rfl | rfl | rfl <;> decide
  refine List.any_eq_true.2 ⟨_, hmem, ?_⟩
  rw [Bool.or_eq_true, decide_eq_true_eq, decide_eq_true_eq, String.toList_append, String.toList_ofList]
  rcases hguard with hg | hg
  · exact Or.inl (String.toList_inj.1 (by rw [hg, String.toList_ofList]))
  · exact Or.inr hg

/-- No other letter than these two has a `toLower` among the five. -/
theorem lower_of_toLower {c : Char} (h : c.toLower ∈ ".sock".toList) :
    Environments.lower c = [c.toLower] := by
  have hascii : c.toNat < 128 := by
    by_cases hupper : 'A'.val ≤ c.val ∧ c.val ≤ 'Z'.val
    · have hhigh : c.toNat ≤ 90 := hupper.2
      omega
    · have hself : c.toLower = c := dif_neg hupper
      rw [hself] at h
      have hall : ∀ d ∈ ".sock".toList, d.toNat < 128 := List.all_iff_forall_prop.1 (by decide)
      exact hall c h
  rw [Environments.lower, if_neg (by omega), if_neg (by omega)]

theorem socket_guarded (h : Socket path.toList) : ".sock".toList <:+ toLowerCase path := by
  obtain ⟨front, ending, hpath, hending⟩ := h
  refine ⟨front.flatMap Environments.lower, ?_⟩
  have hlower : ∀ l : List Char, (∀ c ∈ l, c.toLower ∈ ".sock".toList) →
    l.flatMap Environments.lower = l.map Char.toLower := by
    intro l hl
    induction l with
    | nil => rfl
    | cons c l ih =>
        obtain ⟨hc, hl⟩ := List.forall_mem_cons.1 hl
        rw [List.flatMap_cons, lower_of_toLower hc, ih hl, List.map_cons, List.singleton_append]
  rw [toLowerCase, hpath, List.flatMap_append,
    hlower ending fun c hc => hending ▸ List.mem_map_of_mem hc, hending]

/-- The second part: nothing is changed in a guarded place. -/
theorem writeRefusal_sound (hpath : normalizeBrowserPath path = some path)
    (h : writeRefusal path op = none) :
    segments path.toList ≠ [] ∧ ¬ Kernel path.toList ∧ ¬ Socket path.toList ∧
      (op = .delete → 2 ≤ (segments path.toList).length) := by
  obtain ⟨-, heq⟩ := normalizeBrowserPath_eq_some.1 hpath
  have hrender : path.toList = render (segments path.toList) := by
    conv_lhs => rw [heq, String.toList_ofList]
  rw [writeRefusal] at h
  split_ifs at h with hnormal hroot hkernel hsocket hdelete
  refine ⟨fun hnil => hroot ?_, fun hk => hkernel (kernel_guarded hrender hk),
    fun hs => hsocket (socket_guarded hs), ?_⟩
  · rw [hnil] at heq
    exact heq
  · intro hop
    exact not_lt.1 fun hlt => hdelete ⟨hop, hlt⟩

/-! ### Entries of a directory -/

theorem entryName_segment (h : isValidEntryName name = true) :
    Segment name.toList ∧ utf16Length name ≤ 255 ∧ ∀ c ∈ name.toList, isControl c = false := by
  rw [isValidEntryName] at h
  split_ifs at h with hlength hdots
  simp only [Bool.or_eq_true, decide_eq_true_eq, not_or, not_lt] at hlength hdots
  obtain ⟨⟨hdot, hdots⟩, hslash⟩ := hdots
  refine ⟨⟨hlength.1, hslash, ?_, ?_⟩, hlength.2, ?_⟩
  · exact fun heq => hdot (String.toList_inj.1 heq)
  · exact fun heq => hdots (String.toList_inj.1 heq)
  · simpa using h

theorem dropSlashes_concat {s : List Char} (hs : Segment s) (front : List Char) :
    dropSlashes (front ++ '/' :: s) = front ++ '/' :: s := by
  rw [dropSlashes, List.rdropWhile_eq_self_iff]
  intro hne hlast
  rw [List.getLast_append_of_ne_nil hne (List.cons_ne_nil _ _), List.getLast_cons hs.nonempty,
    decide_eq_true_eq] at hlast
  exact hs.slash (hlast ▸ List.getLast_mem hs.nonempty)

theorem dropSlashes_render (h : ∀ s ∈ segs, Segment s) (hne : segs ≠ []) :
    dropSlashes (render segs) = render segs := by
  obtain ⟨front, s, rfl⟩ := (List.eq_nil_or_concat' segs).resolve_left hne
  rw [render_concat]
  exact dropSlashes_concat (h s (by simp)) _

theorem joinBrowserPath_render (h : ∀ s ∈ segs, Segment s) (hdir : dir.toList = render segs) :
    (joinBrowserPath dir name).toList = render (segs ++ [name.toList]) := by
  by_cases hnil : segs = []
  · have hroot : dir = "/" := String.toList_inj.1 (by rw [hdir, hnil]; rfl)
    rw [joinBrowserPath, if_pos hroot, hnil, String.toList_append]
    simp [render]
  · have hroot : dir ≠ "/" := by
      rintro rfl
      have hsegs := Canonical.segments_eq h
      rw [← hdir] at hsegs
      exact hnil (by rw [← hsegs]; decide)
    rw [joinBrowserPath, if_neg hroot, hdir, dropSlashes_render h hnil, render_concat, if_neg hnil]
    simp

theorem parentBrowserPath_render {s : List Char} (hs : Segment s)
    (hpath : path.toList = render (segs ++ [s])) :
    parentBrowserPath path = String.ofList (render segs) := by
  have hfront : ∀ front : List Char, (front ++ '/' :: s).rdropWhile (· ≠ '/') = front ++ ['/'] := by
    intro front
    have hdrop : ∀ u : List Char, '/' ∉ u →
      ((front ++ ['/']) ++ u).rdropWhile (· ≠ '/') = front ++ ['/'] := by
      intro u hu
      induction u using List.reverseRecOn with
      | nil => simp
      | append_singleton u c ih =>
          rw [← List.append_assoc, List.rdropWhile_concat_pos _ _ _ (by simpa using fun hc : c = '/' => hu (by simp [hc]))]
          exact ih fun hm => hu (List.mem_append_left _ hm)
    rw [List.append_cons]
    exact hdrop s hs.slash
  rw [parentBrowserPath, hpath, render_concat, dropSlashes_concat hs, hfront]
  by_cases hnil : segs = []
  · rw [if_pos hnil, hnil]
    rfl
  · have hlong : (render segs ++ ['/']).length > 1 := by simp [render]
    simp only [if_neg hnil, if_neg (not_le.2 hlong), List.dropLast_concat]

/-- The third part: an entry's path is accepted, and its parent is the directory. -/
theorem joinBrowserPath_sound (hdir : normalizeBrowserPath dir = some dir)
    (hname : isValidEntryName name = true)
    (hlength : utf16Length (joinBrowserPath dir name) ≤ MAX_BROWSER_PATH) :
    normalizeBrowserPath (joinBrowserPath dir name) = some (joinBrowserPath dir name) ∧
      parentBrowserPath (joinBrowserPath dir name) = dir := by
  obtain ⟨haccepted, heq⟩ := normalizeBrowserPath_eq_some.1 hdir
  obtain ⟨hsegment, hshort, hcontrols⟩ := entryName_segment hname
  have hsegs : ∀ s ∈ segments dir.toList, Segment s := fun s hs => haccepted.segment hs
  have hrender : dir.toList = render (segments dir.toList) := by
    conv_lhs => rw [heq, String.toList_ofList]
  have hjoin : (joinBrowserPath dir name).toList = render (segments dir.toList ++ [name.toList]) :=
    joinBrowserPath_render hsegs hrender
  have hall : ∀ s ∈ segments dir.toList ++ [name.toList], Segment s := by
    intro s hs
    rcases List.mem_append.1 hs with hs | hs
    · exact hsegs s hs
    · exact (List.mem_singleton.1 hs) ▸ hsegment
  have hpieces := Canonical.segments_eq hall
  constructor
  · refine normalizeBrowserPath_eq_some.2 ⟨⟨?_, hlength, ?_, ?_⟩, ?_⟩
    · rw [hjoin]
      rfl
    · intro c hc
      rw [hjoin, render_concat, ← hrender] at hc
      rcases List.mem_append.1 hc with hc | hc
      · apply haccepted.controls c
        split_ifs at hc
        · cases hc
        · exact hc
      · rcases List.mem_cons.1 hc with rfl | hc
        · rfl
        · exact hcontrols c hc
    · rw [hjoin, hpieces]
      intro s hs
      rcases List.mem_append.1 hs with hs | hs
      · exact haccepted.segs s hs
      · rw [List.mem_singleton.1 hs, String.ofList_toList]
        exact ⟨hsegment.dot, hsegment.dots, hshort⟩
    · rw [hjoin, hpieces, ← hjoin, String.ofList_toList]
  · rw [parentBrowserPath_render hsegment hjoin, ← hrender, String.ofList_toList]

end Normal

/-- A written path stays where it was allowed. -/
theorem browser_paths :
    (∀ path q, normalizeBrowserPath path = some q →
      path.toList.head? = some '/' ∧ q.toList = lexical path.toList ∧ Canonical q.toList ∧ normalizeBrowserPath q = some q) ∧
    (∀ path op, normalizeBrowserPath path = some path → writeRefusal path op = none →
      segments path.toList ≠ [] ∧ ¬ Kernel path.toList ∧ ¬ Socket path.toList ∧ (op = .delete → 2 ≤ (segments path.toList).length)) ∧
    ∀ dir name, normalizeBrowserPath dir = some dir → isValidEntryName name = true →
      utf16Length (joinBrowserPath dir name) ≤ MAX_BROWSER_PATH →
      normalizeBrowserPath (joinBrowserPath dir name) = some (joinBrowserPath dir name) ∧
        parentBrowserPath (joinBrowserPath dir name) = dir :=
  ⟨fun _ _ h => normalize_sound h, fun _ _ hpath h => writeRefusal_sound hpath h,
    fun _ _ hdir hname hlength => joinBrowserPath_sound hdir hname hlength⟩

theorem browser_paths_app :
    (normalizeBrowserPath "/app//src/" = some "/app/src" ∧ normalizeBrowserPath "/app/src" = some "/app/src") ∧
    (writeRefusal "/procfs/a" .delete = none ∧ ¬ Kernel "/procfs/a".toList) ∧
    parentBrowserPath (joinBrowserPath "/app/src" "main.ts") = "/app/src" := by
  have hnormal : normalizeBrowserPath "/app//src/" = some "/app/src" := by decide +kernel
  have hwrite : writeRefusal "/procfs/a" .delete = none := by decide +kernel
  refine ⟨⟨hnormal, (browser_paths.1 _ _ hnormal).2.2.2⟩, ⟨hwrite, ?_⟩, ?_⟩
  · exact (browser_paths.2.1 "/procfs/a" .delete (by decide +kernel) hwrite).2.1
  · exact (browser_paths.2.2 "/app/src" "main.ts" (by decide +kernel) (by decide +kernel) (by decide +kernel)).2

end Yeah.Browser
