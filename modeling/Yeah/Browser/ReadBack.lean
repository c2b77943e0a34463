import Yeah.Browser.Listing
import Mathlib.Data.List.Pairwise
import Mathlib.Data.List.Perm.Subperm

namespace Yeah.Browser

open Text Doubles

def HeadSolid (t : List Char) : Prop := ∀ c ∈ t.head?, blank c = false

def LastSolid (t : List Char) : Prop := ∀ c ∈ t.getLast?, blank c = false

/-- With the arrow behind it, the name has an arrow that begins in the name itself. -/
def Early (name : List Char) : Prop := arrow <:+: name ++ " ->".toList

def DirEntry.Plain (e : DirEntry) : Prop :=
  match e.node with
  | .directory _ => HeadSolid e.name.text
  | .file size =>
      HeadSolid e.name.text ∧ LastSolid e.name.text ∧ double size.value = size.value ∧
        size.value < 2 ^ 1024
  | .link _ target => HeadSolid e.name.text ∧ ¬ Early e.name.text ∧ ∃ c ∈ target.text, blank c = false
  | .pipe _ | .socket _ => HeadSolid e.name.text ∧ LastSolid e.name.text
  | .charDevice _ _ | .blockDevice _ _ => False

/-- Two links that are taken for each other: `a`, with a blank target, and the other one, `a ->`. -/
def Swapped (e a : DirEntry) : Prop :=
  (∃ size target, e.node = .link size target ∧ ∀ c ∈ target.text, blank c = true) ∧
      HeadSolid e.name.text ∧
    ¬ Early e.name.text ∧ a.node.kind = .link ∧ a.name.text = e.name.text ++ " ->".toList

section Permutation

variable {α β : Type} {f : α → Option β} {g : α → β} {l : List α}

theorem perm_filterMap_of_onto (hg : (l.map g).Nodup) (h : ∀ a ∈ l, ∃ b ∈ l, f b = some (g a)) :
    (l.filterMap f).Perm (l.map g) := by
  have hsub : l.map g ⊆ l.filterMap f := by
    intro y hy
    obtain ⟨a, ha, rfl⟩ := List.mem_map.1 hy
    obtain ⟨b, hb, hfb⟩ := h a ha
    exact List.mem_filterMap.2 ⟨b, hb, hfb⟩
  have hlength : (l.filterMap f).length ≤ (l.map g).length := by
    rw [List.length_map]
    exact List.length_filterMap_le f l
  exact ((List.subperm_of_subset hg hsub).perm_of_length_le hlength).symm

theorem onto_of_perm (h : (l.filterMap f).Perm (l.map g)) {a : α} (ha : a ∈ l) :
    ∃ b ∈ l, f b = some (g a) :=
  List.mem_filterMap.1 (h.mem_iff.2 (List.mem_map_of_mem ha))

theorem total_of_perm (h : (l.filterMap f).Perm (l.map g)) {a : α} (ha : a ∈ l) :
    ∃ b ∈ l, f a = some (g b) := by
  have hlength : (l.filterMap f).length = l.length := by rw [h.length_eq, List.length_map]
  cases hfa : f a with
  | none =>
      have hlt := List.length_filterMap_lt_length_iff_exists.2 ⟨a, ha, hfa⟩
      omega
  | some y =>
      obtain ⟨b, hb, rfl⟩ := List.mem_map.1 (h.mem_iff.1 (List.mem_filterMap.2 ⟨a, ha, hfa⟩))
      exact ⟨b, hb, rfl⟩

theorem injective_of_perm (hg : (l.map g).Nodup) (h : (l.filterMap f).Perm (l.map g)) {a b : α}
    (ha : a ∈ l)
    (hb : b ∈ l) {y : β} (hfa : f a = some y) (hfb : f b = some y) : a = b := by
  have hpair := List.pairwise_filterMap.1 (h.nodup_iff.2 hg)
  have hsymm : Std.Symm fun a a' => ∀ b, f a = some b → ∀ b', f a' = some b' → b ≠ b' :=
    ⟨fun _ _ h u hu v hv he => h v hv u hu he.symm⟩
  by_contra hne
  exact hpair.forall ha hb hne y hfa y hfb rfl

end Permutation

section Arrow

variable {q s t n : List Char} {c : Char}

theorem arrow_eq : arrow = " ->".toList ++ [' '] := by decide

theorem beforeArrow_cons :
    beforeArrow (c :: t) = if arrow <+: c :: t then some [] else (beforeArrow t).map (c :: ·) :=
  rfl

theorem Early.cons (h : Early q) (c : Char) : Early (c :: q) := h.trans (List.suffix_cons c _).isInfix

theorem not_early_nil : ¬ Early [] := by
  intro h
  have hlength := h.length_le
  revert hlength
  decide

theorem arrow_prefix_append (q s : List Char) : q ++ " ->".toList <+: q ++ (arrow ++ s) := by
  rw [arrow_eq, List.append_assoc, ← List.append_assoc]
  exact List.prefix_append _ _

theorem early_of_leading (h : arrow <+: c :: (q ++ (arrow ++ s))) : Early (c :: q) := by
  have hpre : (c :: q) ++ " ->".toList <+: c :: (q ++ (arrow ++ s)) := arrow_prefix_append (c :: q) s
  refine (List.prefix_of_prefix_length_le h hpre ?_).isInfix
  simp [arrow]

theorem beforeArrow_append (h : ¬ Early q) (s : List Char) :
    beforeArrow (q ++ (arrow ++ s)) = some q := by
  induction q with
  | nil =>
      have hpre : arrow <+: ' ' :: ("-> ".toList ++ s) := List.prefix_append arrow s
      exact if_pos hpre
  | cons c q ih =>
      have hpre : ¬ arrow <+: c :: (q ++ (arrow ++ s)) := fun hp => h (early_of_leading hp)
      rw [List.cons_append, beforeArrow_cons, if_neg hpre, ih fun hq => h (hq.cons c)]
      rfl

theorem beforeArrow_eq_some (h : beforeArrow t = some q) : ¬ Early q ∧ ∃ s, t = q ++ (arrow ++ s) := by
  induction t generalizing q with
  | nil => cases h
  | cons c t ih =>
      rw [beforeArrow_cons] at h
      split at h
      · next hpre =>
          obtain rfl := Option.some_inj.1 h
          obtain ⟨s, hs⟩ := hpre
          exact ⟨not_early_nil, s, hs.symm⟩
      · next hpre =>
          obtain ⟨q', hq', rfl⟩ := Option.map_eq_some_iff.1 h
          obtain ⟨hearly, s, rfl⟩ := ih hq'
          refine ⟨fun he => ?_, s, rfl⟩
          rcases List.infix_cons_iff.1 he with hp | hi
          · exact hpre (hp.trans (arrow_prefix_append (c :: q') s))
          · exact hearly hi

theorem beforeArrow_eq_none (h : beforeArrow t = none) : ¬ arrow <:+: t := by
  induction t with
  | nil => decide
  | cons c t ih =>
      rw [beforeArrow_cons] at h
      split at h
      · cases h
      · next hpre =>
          rw [Option.map_eq_none_iff] at h
          rw [List.infix_cons_iff]
          rintro (hp | hi)
          · exact hpre hp
          · exact ih h hi

/-- The first arrow of a text does not depend on what follows the arrow of the name. -/
theorem beforeArrow_early (h : beforeArrow (n ++ " ->".toList) = some q) (t : List Char) :
    beforeArrow (n ++ (arrow ++ t)) = some q := by
  obtain ⟨hearly, s, hs⟩ := beforeArrow_eq_some h
  have htext : n ++ (arrow ++ t) = q ++ (arrow ++ (s ++ ' ' :: t)) := by
    rw [arrow_eq, List.append_assoc, ← List.append_assoc n, hs]
    simp [arrow]
  rw [htext, beforeArrow_append hearly]

theorem beforeArrow_of_not_early (h : ¬ Early n) : beforeArrow (n ++ " ->".toList) = none := by
  cases hq : beforeArrow (n ++ " ->".toList) with
  | none => rfl
  | some q =>
      obtain ⟨-, s, hs⟩ := beforeArrow_eq_some hq
      exact absurd ⟨q, s, by rw [List.append_assoc, ← hs]⟩ h

end Arrow

section Names

variable {e : DirEntry} {t : List Char}

theorem HeadSolid.append {s : List Char} (h : HeadSolid s) (hne : s ≠ []) (t : List Char) :
    HeadSolid (s ++ t) := by
  intro c hc
  rw [List.head?_append_of_ne_nil _ hne] at hc
  exact h c hc

theorem trimSlash_of_not_mem (h : '/' ∉ t) : trimSlash t = t :=
  if_neg fun hl => h (List.mem_of_getLast? hl)

theorem trimSlash_concat (t : List Char) : trimSlash (t ++ ['/']) = t := by simp [trimSlash]

theorem trimSlash_isPrefix (t : List Char) : trimSlash t <+: t := by
  rw [trimSlash]
  split
  · exact List.dropLast_prefix t
  · exact List.prefix_rfl

theorem readName_head (e : DirEntry) : HeadSolid e.readName := by
  refine strip_head (s := e.behind) ((trimSlash_isPrefix _).trans ?_)
  split
  · cases h : beforeArrow (strip blank e.behind) with
    | none => exact List.prefix_rfl
    | some q =>
        obtain ⟨-, s, hs⟩ := beforeArrow_eq_some h
        exact ⟨_, hs.symm⟩
  · exact List.prefix_rfl

theorem columns_drop (h : e.node.numbers.length = 1) : e.columns.drop 7 = [] := by
  refine List.drop_eq_nil_of_le ?_
  simp [DirEntry.columns, h]

theorem behind_of_size (h : e.node.numbers.length = 1) :
    e.behind = ' ' :: (e.name.text ++ e.node.suffix) := by
  rw [DirEntry.behind, columns_drop h]
  rfl

theorem strip_blank_cons (t : List Char) : strip blank (' ' :: t) = strip blank t :=
  strip_append_left (t := [' ']) (by simp [blank_space]) t

theorem readName_directory {size : Numeral} (h : e.node = .directory size)
    (hhead : HeadSolid e.name.text) :
    e.readName = e.name.text := by
  have hbehind : e.behind = ' ' :: (e.name.text ++ ['/']) := by
    rw [behind_of_size (by rw [h]; rfl), h]
    rfl
  have hstrip : strip blank e.behind = e.name.text ++ ['/'] := by
    rw [hbehind, strip_blank_cons, strip_of_ends (hhead.append e.name.segment.nonempty _)]
    rw [List.getLast?_concat]
    exact fun c hc => by cases hc; decide
  rw [DirEntry.readName, h, hstrip]
  exact trimSlash_concat _

theorem suffix_nil (hkind : e.node.kind = .file ∨ e.node.kind = .other) : e.node.suffix = [] := by
  cases hnode : e.node <;> rw [hnode] at hkind <;> first | rfl | simp [Node.kind] at hkind

theorem slash_not_mem_behind (hkind : e.node.kind = .file ∨ e.node.kind = .other) : '/' ∉ e.behind := by
  have hname := e.name.segment.slash
  have hlayout : '/' ∉ layout e.gaps 7 (e.columns.drop 7) := by
    have hcolumns : e.columns.drop 7 = [] ∨ e.columns.drop 7 = [e.time.text] := by
      cases hnode : e.node
      case charDevice | blockDevice =>
        right
        simp [DirEntry.columns, hnode, Node.numbers]
      all_goals
        left
        exact columns_drop (by rw [hnode]; rfl)
    rcases hcolumns with h | h
    · simp [h, layout]
    · have hspaces : '/' ∉ List.replicate (e.gaps 7 + 1) ' ' := fun hm => by
        have := (List.mem_replicate.1 hm).2
        revert this
        decide
      rw [h, layout, layout, List.append_nil, List.mem_append]
      rintro (hm | hm)
      · exact hspaces hm
      · exact e.clock hm
  rw [DirEntry.behind, suffix_nil hkind, List.append_nil, List.mem_append, List.mem_cons]
  rintro (hm | hm | hm)
  · exact hlayout hm
  · revert hm
    decide
  · exact hname hm

theorem readName_strip (hkind : e.node.kind = .file ∨ e.node.kind = .other) :
    e.readName = strip blank e.behind := by
  have hlink : e.node.kind ≠ .link := by
    rintro h
    rw [h] at hkind
    rcases hkind with h | h <;> cases h
  rw [DirEntry.readName, if_neg hlink]
  exact trimSlash_of_not_mem fun hm => slash_not_mem_behind hkind (mem_of_mem_strip hm)

theorem readName_last (hkind : e.node.kind = .file ∨ e.node.kind = .other) : LastSolid e.readName := by
  rw [readName_strip hkind]
  exact strip_last _

theorem readName_solid (hsize : e.node.numbers.length = 1)
    (hkind : e.node.kind = .file ∨ e.node.kind = .other)
    (hhead : HeadSolid e.name.text) (hlast : LastSolid e.name.text) : e.readName = e.name.text := by
  rw [readName_strip hkind, behind_of_size hsize, suffix_nil hkind, List.append_nil, strip_blank_cons,
    strip_of_ends hhead hlast]

theorem length_readName_device (hsize : e.node.numbers.length = 2) (hkind : e.node.kind = .other)
    (hlast : LastSolid e.name.text) : e.name.text.length < e.readName.length := by
  have hcolumns : e.columns.drop 7 = [e.time.text] := by
    cases hnode : e.node <;> rw [hnode] at hsize <;> simp [Node.numbers] at hsize
    · simp [DirEntry.columns, hnode, Node.numbers]
    · simp [DirEntry.columns, hnode, Node.numbers]
  have hspaces : ∀ c ∈ List.replicate (e.gaps 7 + 1) ' ', blank c = true :=
    fun c hc => by rw [(List.mem_replicate.1 hc).2]; exact blank_space
  have htime : HeadSolid e.time.text := fun c hc => e.time.solid c (List.mem_of_head? hc)
  have hend : LastSolid (e.time.text ++ ' ' :: e.name.text) := by
    intro c hc
    rw [List.append_cons, List.getLast?_append_of_ne_nil _ e.name.segment.nonempty] at hc
    exact hlast c hc
  have hname : e.readName = e.time.text ++ ' ' :: e.name.text := by
    rw [readName_strip (Or.inr hkind), DirEntry.behind, hcolumns, suffix_nil (Or.inr hkind), List.append_nil, layout, layout,
      List.append_nil, List.append_assoc, strip_append_left hspaces,
      strip_of_ends (htime.append e.time.nonempty _) hend]
  rw [hname, List.length_append, List.length_cons]
  omega

theorem strip_link {size : Numeral} {target : Target} (h : e.node = .link size target) :
    strip blank e.behind = strip blank (e.name.text ++ (arrow ++ target.text)) := by
  rw [behind_of_size (by rw [h]; rfl), h, strip_blank_cons]
  rfl

theorem strip_link_blank {size : Numeral} {target : Target} (h : e.node = .link size target)
    (hhead : HeadSolid e.name.text) (hblank : ∀ c ∈ target.text, blank c = true) :
    strip blank e.behind = e.name.text ++ " ->".toList := by
  have htext : e.name.text ++ (arrow ++ target.text) =
      (e.name.text ++ " ->".toList) ++ ' ' :: target.text := by
    simp [arrow]
  have htarget : ∀ c ∈ ' ' :: target.text, blank c = true := List.forall_mem_cons.2 ⟨blank_space, hblank⟩
  rw [strip_link h, htext, strip_append_right htarget,
    strip_of_ends (hhead.append e.name.segment.nonempty _)]
  rw [List.getLast?_append_of_ne_nil _ (by decide)]
  exact fun c hc => by cases hc; decide

theorem strip_link_solid {size : Numeral} {target : Target} (h : e.node = .link size target)
    (hhead : HeadSolid e.name.text) (hsolid : ∃ c ∈ target.text, blank c = false) :
    ∃ t, strip blank e.behind = e.name.text ++ (arrow ++ t) := by
  obtain ⟨t, b, htarget, hne, hlast, hb⟩ := exists_last hsolid
  have htext : e.name.text ++ (arrow ++ target.text) = (e.name.text ++ (arrow ++ t)) ++ b := by
    rw [htarget]
    simp only [List.append_assoc]
  refine ⟨t, ?_⟩
  rw [strip_link h, htext, strip_append_right hb, strip_of_ends (hhead.append e.name.segment.nonempty _)]
  rwa [← List.append_assoc, List.getLast?_append_of_ne_nil _ hne]

theorem readName_link {size : Numeral} {target : Target} (h : e.node = .link size target)
    (hhead : HeadSolid e.name.text) : e.readName =
      (beforeArrow (e.name.text ++ " ->".toList)).getD
        (if target.text.all blank then e.name.text ++ " ->".toList else e.name.text) := by
  have hslash := e.name.segment.slash
  have hread : e.readName = trimSlash ((beforeArrow (strip blank e.behind)).getD (strip blank e.behind)) := by
    rw [DirEntry.readName, h]
    rfl
  have hmem : '/' ∉ e.name.text ++ " ->".toList := by
    rw [List.mem_append]
    rintro (hm | hm)
    · exact hslash hm
    · revert hm
      decide
  have hbefore : ∀ q, beforeArrow (e.name.text ++ " ->".toList) = some q → '/' ∉ q := by
    intro q hq hm
    obtain ⟨-, s, hs⟩ := beforeArrow_eq_some hq
    exact hmem (hs ▸ List.mem_append_left _ hm)
  by_cases hall : target.text.all blank = true
  · rw [hread, strip_link_blank h hhead (List.all_eq_true.1 hall), if_pos hall]
    refine trimSlash_of_not_mem fun hm => ?_
    cases hq : beforeArrow (e.name.text ++ " ->".toList) with
    | none =>
        rw [hq] at hm
        exact hmem hm
    | some q =>
        rw [hq] at hm
        exact hbefore q hq hm
  · obtain ⟨t, hstrip⟩ := strip_link_solid h hhead (by simpa using hall)
    rw [hread, hstrip, if_neg hall]
    cases hq : beforeArrow (e.name.text ++ " ->".toList) with
    | none =>
        rw [beforeArrow_append (beforeArrow_eq_none hq)]
        exact trimSlash_of_not_mem hslash
    | some q =>
        rw [beforeArrow_early hq]
        exact trimSlash_of_not_mem (hbefore q hq)

end Names

section Entries

variable {e a b : DirEntry}

/-- What is read from the line of one entry is another one, or the same, if name, kind and size of a file agree. -/
theorem seen_eq_own : (parseLine e.line).map BrowserEntry.seen = some a.own ↔
    e.readName = a.name.text ∧ e.node.kind = a.node.kind ∧
      (if e.node.kind = .file then e.readSize else none) = a.node.size := by
  rw [parseLine_line]
  by_cases hbad : e.readName = [] ∨ e.readName = ['.'] ∨ e.readName = ['.', '.']
  · rw [if_pos hbad]
    refine iff_of_false (fun h => by cases h) fun h => ?_
    rw [h.1] at hbad
    rcases hbad with h | h | h
    · exact a.name.segment.nonempty h
    · exact a.name.segment.dot h
    · exact a.name.segment.dots h
  · rw [if_neg hbad, Option.map_some, Option.some_inj, BrowserEntry.seen, DirEntry.own, Prod.mk.injEq,
      Prod.mk.injEq]

theorem readSize_file {size : Numeral} (h : e.node = .file size) :
    e.readSize = if double size.value < 2 ^ 1024 then some (double size.value) else none := by
  have hread : e.readSize = tokenNumber size.text := by
    rw [DirEntry.readSize, h]
    rfl
  by_cases hfinite : double size.value < 2 ^ 1024
  · rw [hread, if_pos hfinite]
    exact if_pos ⟨size.nonempty, size.digits, hfinite⟩
  · rw [hread, if_neg hfinite]
    exact if_neg fun h => hfinite h.2.2

theorem seen_plain (h : e.Plain) : (parseLine e.line).map BrowserEntry.seen = some e.own := by
  rw [seen_eq_own]
  rw [DirEntry.Plain] at h
  cases hnode : e.node <;> rw [hnode] at h
  case directory size => exact ⟨readName_directory hnode h, rfl, rfl⟩
  case file size =>
    obtain ⟨hhead, hlast, hsize, hfinite⟩ := h
    refine ⟨readName_solid (by rw [hnode]; rfl) (by rw [hnode]; exact Or.inl rfl) hhead hlast, rfl, ?_⟩
    rw [readSize_file hnode, hsize, if_pos hfinite]
    rfl
  case link size target =>
    obtain ⟨hhead, hearly, c, hc, hblank⟩ := h
    have hall : target.text.all blank ≠ true := fun h => by
      rw [List.all_eq_true.1 h c hc] at hblank
      cases hblank
    refine ⟨?_, rfl, rfl⟩
    rw [readName_link hnode hhead, beforeArrow_of_not_early hearly, if_neg hall]
    rfl
  case pipe | socket =>
    exact ⟨readName_solid (by rw [hnode]; rfl) (by rw [hnode]; exact Or.inr rfl) h.1 h.2, rfl, rfl⟩
  case charDevice | blockDevice => exact h.elim

theorem kind_link (h : e.node.kind = .link) : ∃ size target, e.node = .link size target := by
  cases hnode : e.node <;> rw [hnode] at h <;> first | exact ⟨_, _, rfl⟩ | cases h

theorem size_of_not_file (h : e.node.kind ≠ .file) : e.node.size = none := by
  cases hnode : e.node <;> rw [hnode] at h <;> first | rfl | exact absurd rfl h

theorem Swapped.head_solid (h : Swapped e a) : HeadSolid a.name.text := by
  obtain ⟨-, hhead, -, -, hname⟩ := h
  rw [hname]
  exact hhead.append e.name.segment.nonempty _

theorem Swapped.kind (h : Swapped e a) : e.node.kind = .link ∧ a.node.kind = .link := by
  obtain ⟨⟨size, target, hnode, -⟩, -, -, hkind, -⟩ := h
  rw [hnode]
  exact ⟨rfl, hkind⟩

/-- The link with the blank target is read as the other one. -/
theorem Swapped.seen (h : Swapped e a) : (parseLine e.line).map BrowserEntry.seen = some a.own := by
  obtain ⟨hkind, hkind'⟩ := h.kind
  obtain ⟨⟨size, target, hnode, hblank⟩, hhead, hearly, -, hname⟩ := h
  have hall : target.text.all blank = true := List.all_eq_true.2 hblank
  rw [seen_eq_own, size_of_not_file (by rw [hkind']; decide), hkind, hkind', hname, readName_link hnode hhead,
    beforeArrow_of_not_early hearly, if_pos hall]
  exact ⟨rfl, rfl, rfl⟩

theorem Swapped.seen_back (h : Swapped e a) : (parseLine a.line).map BrowserEntry.seen = some e.own := by
  obtain ⟨hkind, hkind'⟩ := h.kind
  have hhead := h.head_solid
  obtain ⟨-, -, hearly, -, hname⟩ := h
  obtain ⟨size, target, hnode⟩ := kind_link hkind'
  have harrow : a.name.text ++ " ->".toList = e.name.text ++ (arrow ++ "->".toList) := by
    rw [hname]
    simp [arrow]
  rw [seen_eq_own, size_of_not_file (by rw [hkind]; decide), hkind, hkind', readName_link hnode hhead, harrow,
    beforeArrow_append hearly]
  exact ⟨rfl, rfl, rfl⟩

end Entries

section Listing

variable {d : Directory} {e a : DirEntry}

/-- The text of every line is read as some entry of the directory, and every entry from some line. -/
def Faithful (d : Directory) : Prop :=
  (d.entries.filterMap fun e => (parseLine e.line).map BrowserEntry.seen).Perm (d.entries.map DirEntry.own)

theorem eq_of_name (he : e ∈ d.entries) (ha : a ∈ d.entries) (h : e.name.text = a.name.text) : e = a :=
  List.inj_on_of_nodup_map d.distinct he ha h

theorem nodup_own (d : Directory) : (d.entries.map DirEntry.own).Nodup := by
  refine List.Nodup.of_map Prod.fst ?_
  rw [List.map_map]
  exact d.distinct

theorem Faithful.onto (h : Faithful d) (he : e ∈ d.entries) : ∃ b ∈ d.entries, b.readName = e.name.text ∧
    b.node.kind = e.node.kind ∧ (if b.node.kind = .file then b.readSize else none) = e.node.size := by
  obtain ⟨b, hb, hread⟩ := onto_of_perm h he
  exact ⟨b, hb, seen_eq_own.1 hread⟩

theorem Faithful.total (h : Faithful d) (he : e ∈ d.entries) :
    ∃ b ∈ d.entries, (parseLine e.line).map BrowserEntry.seen = some b.own :=
  total_of_perm h he

theorem Faithful.injective (h : Faithful d) (he : e ∈ d.entries) (ha : a ∈ d.entries) {b : DirEntry}
    (hread : (parseLine e.line).map BrowserEntry.seen = some b.own)
    (hread' : (parseLine a.line).map BrowserEntry.seen = some b.own) : e = a :=
  injective_of_perm (nodup_own d) h he ha hread hread'

theorem Faithful.head_solid (h : Faithful d) (he : e ∈ d.entries) : HeadSolid e.name.text := by
  obtain ⟨b, -, hname, -⟩ := h.onto he
  rw [← hname]
  exact readName_head b

theorem Faithful.last_solid (h : Faithful d) (he : e ∈ d.entries)
    (hkind : e.node.kind = .file ∨ e.node.kind = .other) :
    LastSolid e.name.text := by
  obtain ⟨b, -, hname, hb, -⟩ := h.onto he
  rw [← hb] at hkind
  rw [← hname]
  exact readName_last hkind

theorem Faithful.size (h : Faithful d) (he : e ∈ d.entries) {size : Numeral}
    (hnode : e.node = .file size) :
    double size.value = size.value ∧ size.value < 2 ^ 1024 := by
  obtain ⟨b, hb, hname, hkind, hsize⟩ := h.onto he
  rw [hnode] at hkind
  obtain ⟨size', hnode'⟩ : ∃ size', b.node = .file size' := by
    cases hn : b.node <;> rw [hn] at hkind <;> first | exact ⟨_, rfl⟩ | cases hkind
  have hown : b.readName = b.name.text :=
    readName_solid (by rw [hnode']; rfl) (Or.inl hkind) (h.head_solid hb) (h.last_solid hb (Or.inl hkind))
  obtain rfl := eq_of_name hb he (hown.symm.trans hname)
  rw [hnode] at hkind hsize
  rw [readSize_file hnode] at hsize
  have hread := (Option.ite_none_right_eq_some.1 hsize).2
  obtain ⟨hfinite, hexact⟩ := Option.ite_none_right_eq_some.1 hread
  rw [Option.some_inj.1 hexact] at hfinite
  exact ⟨Option.some_inj.1 hexact, hfinite⟩

theorem Faithful.no_device (h : Faithful d) (he : e ∈ d.entries) (hkind : e.node.kind = .other) :
    e.node.numbers.length = 1 := by
  induction hn : e.name.text.length using Nat.strong_induction_on generalizing e with
  | _ n ih =>
      obtain ⟨b, hb, hname, hbkind, -⟩ := h.onto he
      rw [hkind] at hbkind
      have hsolid := h.last_solid hb (Or.inr hbkind)
      have hnumbers : b.node.numbers.length = 1 ∨ b.node.numbers.length = 2 := by
        cases b.node <;> first | exact Or.inl rfl | exact Or.inr rfl
      rcases hnumbers with hone | htwo
      · have hown : b.readName = b.name.text :=
          readName_solid hone (Or.inr hbkind) (h.head_solid hb) hsolid
        rw [← eq_of_name hb he (hown.symm.trans hname)]
        exact hone
      · have hlt := length_readName_device htwo hbkind hsolid
        have hone := ih b.name.text.length (by rw [← hn, ← hname]; exact hlt) hb hbkind rfl
        omega

theorem blank_or_not (t : List Char) : (∃ c ∈ t, blank c = false) ∨ ∀ c ∈ t, blank c = true := by
  by_cases h : ∃ c ∈ t, blank c = false
  · exact Or.inl h
  · exact Or.inr fun c hc => by_contra fun hb => h ⟨c, hc, by simpa using hb⟩

theorem swapped_of_read {size : Numeral} {target : Target} (hnode : e.node = .link size target)
    (hblank : ∀ c ∈ target.text, blank c = true) (hhead : HeadSolid e.name.text)
    (hearly : ¬ Early e.name.text)
    (hread : (parseLine e.line).map BrowserEntry.seen = some a.own) : Swapped e a := by
  obtain ⟨hname, hkind, -⟩ := seen_eq_own.1 hread
  rw [hnode] at hkind
  rw [readName_link hnode hhead, beforeArrow_of_not_early hearly, Option.getD_none,
    if_pos (List.all_eq_true.2 hblank)] at hname
  exact ⟨⟨size, target, hnode, hblank⟩, hhead, hearly, hkind.symm, hname.symm⟩

theorem Faithful.link (h : Faithful d) (he : e ∈ d.entries) {size : Numeral} {target : Target}
    (hnode : e.node = .link size target) : e.Plain ∨ ∃ a ∈ d.entries, Swapped e a ∨ Swapped a e := by
  have hhead := h.head_solid he
  obtain ⟨a, ha, hread⟩ := h.total he
  cases hq : beforeArrow (e.name.text ++ " ->".toList) with
  | none =>
      have hearly : ¬ Early e.name.text := beforeArrow_eq_none hq
      rcases blank_or_not target.text with hsolid | hblank
      · left
        rw [DirEntry.Plain, hnode]
        exact ⟨hhead, hearly, hsolid⟩
      · exact Or.inr ⟨a, ha, Or.inl (swapped_of_read hnode hblank hhead hearly hread)⟩
  | some q =>
      -- The arrow of the name is taken for the one of the link, and `q` is the name of the link `a`.
      obtain ⟨hearly, s, hs⟩ := beforeArrow_eq_some hq
      obtain ⟨hname, hkind, -⟩ := seen_eq_own.1 hread
      rw [hnode] at hkind
      obtain ⟨size', target', hlink⟩ := kind_link hkind.symm
      rw [readName_link hnode hhead, hq, Option.getD_some] at hname
      subst hname
      rcases blank_or_not target'.text with hsolid | hblank
      · have hplain : a.Plain := by
          rw [DirEntry.Plain, hlink]
          exact ⟨h.head_solid ha, hearly, hsolid⟩
        obtain rfl := h.injective ha he (seen_plain hplain) hread
        have hlength := congrArg List.length hs
        simp [arrow] at hlength
      · obtain ⟨b, hb, hback⟩ := h.total ha
        have hswap : Swapped a b := swapped_of_read hlink hblank (h.head_solid ha) hearly hback
        obtain rfl := h.injective hb he hswap.seen_back hread
        exact Or.inr ⟨a, ha, Or.inr hswap⟩

theorem seen_perm (localeCompare : List Char → List Char → Ordering) (total : Numeral) (d : Directory) :
    ((parseListing localeCompare (lsOutput total d)).map BrowserEntry.seen).Perm
      (d.entries.filterMap fun e => (parseLine e.line).map BrowserEntry.seen) := by
  have hread := (parseListing_perm localeCompare total d).map BrowserEntry.seen
  rwa [List.map_filterMap] at hread

/-- The listing that is read back is the content of the directory if and only if every entry is read from its own
line, or two links are taken for each other. -/
theorem parseListing_iff (localeCompare : List Char → List Char → Ordering) (total : Numeral)
    (d : Directory) :
    ((parseListing localeCompare (lsOutput total d)).map BrowserEntry.seen).Perm (d.entries.map DirEntry.own) ↔
      ∀ e ∈ d.entries, e.Plain ∨ ∃ a ∈ d.entries, Swapped e a ∨ Swapped a e := by
  rw [(seen_perm localeCompare total d).congr_left]
  constructor
  · intro h e he
    have hfaithful : Faithful d := h
    cases hnode : e.node with
    | directory size =>
        left
        rw [DirEntry.Plain, hnode]
        exact hfaithful.head_solid he
    | file size =>
        left
        rw [DirEntry.Plain, hnode]
        exact ⟨hfaithful.head_solid he, hfaithful.last_solid he (by rw [hnode]; exact Or.inl rfl),
          hfaithful.size he hnode⟩
    | link size target => exact hfaithful.link he hnode
    | pipe size | socket size =>
        left
        rw [DirEntry.Plain, hnode]
        exact ⟨hfaithful.head_solid he, hfaithful.last_solid he (by rw [hnode]; exact Or.inr rfl)⟩
    | charDevice major minor | blockDevice major minor =>
        have hnumbers := hfaithful.no_device he (by rw [hnode]; rfl)
        rw [hnode] at hnumbers
        cases hnumbers
  · intro h
    refine perm_filterMap_of_onto (nodup_own d) fun e he => ?_
    rcases h e he with hplain | ⟨a, ha, hswap | hswap⟩
    · exact ⟨e, he, seen_plain hplain⟩
    · exact ⟨a, ha, hswap.seen_back⟩
    · exact ⟨a, ha, hswap.seen⟩

def word (t : String) (h : t.toList ≠ [] ∧ t.toList.all (fun c => !blank c) = true) : Word where
  text := t.toList
  nonempty := h.1
  solid c hc := by simpa using List.all_eq_true.1 h.2 c hc

/-- `brw-rw---- 1 root disk 8, 1 Oct 11 12:00 sda1` -/
def sda1 : DirEntry where
  name :=
    ⟨"sda1".toList, ⟨by decide, by decide, by decide, by decide⟩, List.all_iff_forall_prop.1 (by decide)⟩
  node := .blockDevice ⟨['8'], by decide, by decide⟩ ⟨['1'], by decide, by decide⟩
  permissions := "rw-rw----".toList
  nine := by decide
  allowed := by decide
  mark := []
  marked := Or.inl rfl
  links := word "1" (by decide)
  owner := word "root" (by decide)
  group := word "disk" (by decide)
  month := word "Oct" (by decide)
  day := word "11" (by decide)
  time := word "12:00" (by decide)
  clock := by decide
  gaps := fun _ => 0

def devices : Directory := ⟨[sda1], List.nodup_singleton _⟩

/-- The name that is read is `12:00 sda1`. -/
theorem device_misread : ¬ ((parseListing (fun _ _ => .eq) (lsOutput ⟨['0'], by decide, by decide⟩ devices)).map
    BrowserEntry.seen).Perm (devices.entries.map DirEntry.own) := by
  have hread : (devices.entries.filterMap fun e => (parseLine e.line).map BrowserEntry.seen) =
      [("12:00 sda1".toList, .other, none)] := by decide
  rw [(seen_perm _ _ devices).congr_left, hread]
  intro h
  have hmem := h.mem_iff.1 (List.mem_singleton_self _)
  revert hmem
  decide

end Listing

end Yeah.Browser
