import Yeah.Deploy.EnvText
import Mathlib.Data.List.DropRight

namespace Yeah.Deploy

open Text

/-- `^\s*(?:(?:build|both):)?KEY=` -/
def own (key line : List Char) : Bool :=
  let text := line.dropWhile fun c => isSpace c.toNat
  ["", "build:", "both:"].any fun mark => mark.toList ++ key ++ ['='] <+: text

/-- The lines that are kept, and whether one of them is new. -/
def replaceOwn (key value : List Char) : Bool → List (List Char) → List (List Char) × Bool
  | replaced, [] => ([], replaced)
  | replaced, line :: rest =>
      if own key line then
        let (next, all) := replaceOwn key value true rest
        (if replaced then next else (key ++ '=' :: value) :: next, all)
      else
        let (next, all) := replaceOwn key value replaced rest
        (line :: next, all)

def popBlank (next : List (List Char)) : List (List Char) := next.rdropWhile (· = [])

def nextLines (content key value : List Char) : List (List Char) :=
  let (next, replaced) := replaceOwn key value false (if content = [] then [] else lines content)
  popBlank (if replaced then next else popBlank next ++ [key ++ '=' :: value])

/-- Sets `KEY=value` (runtime) in raw ".env" text. -/
def setEnvVariable (content key value : String) : String :=
  String.ofList (['\n'].intercalate (nextLines content.toList key.toList value.toList) ++ ['\n'])

/-- Everything in the way of an entry of the key is gone, and the other entries stand. -/
def SetsVariable (key value : String) (before after : List EnvEntry) : Prop :=
  after.filter (fun e => e.key = key) = [⟨key, value, .runtime⟩] ∧
    after.filter (fun e => e.key ≠ key) = before.filter fun e => e.key ≠ key

section Own

theorem strip_prefix {α : Type} {p : α → Bool} (s : List α) : strip p s <+: s.dropWhile p :=
  List.rdropWhile_prefix p (s.dropWhile p)

variable {key : List Char}

theorem own_iff {line : List Char} :
    own key line = true ↔ ∃ availability rest, line.dropWhile (fun c => isSpace c.toNat) = prefixOf availability ++ (key ++ '=' :: rest) := by
  constructor
  · intro h
    obtain ⟨mark, hmark, hprefix⟩ := List.any_eq_true.1 h
    obtain ⟨rest, hrest⟩ := of_decide_eq_true hprefix
    have hline : line.dropWhile (fun c => isSpace c.toNat) = mark.toList ++ (key ++ '=' :: rest) := by
      simp [← hrest]
    simp only [List.mem_cons, List.not_mem_nil, or_false] at hmark
    rcases hmark with rfl | rfl | rfl
    · exact ⟨.runtime, rest, hline⟩
    · exact ⟨.build, rest, hline⟩
    · exact ⟨.both, rest, hline⟩
  · rintro ⟨availability, rest, h⟩
    have hmark : ∃ mark ∈ ["", "build:", "both:"], mark.toList = prefixOf availability := by
      cases availability with
      | runtime => exact ⟨"", by simp, rfl⟩
      | build => exact ⟨"build:", by simp, rfl⟩
      | both => exact ⟨"both:", by simp, rfl⟩
    obtain ⟨mark, hmem, hmark⟩ := hmark
    exact List.any_eq_true.2 ⟨mark, hmem, decide_eq_true ⟨rest, by simp [h, hmark]⟩⟩

theorem own_nil : own key [] = false := by
  rw [Bool.eq_false_iff]
  intro h
  obtain ⟨availability, rest, hline⟩ := own_iff.1 h
  simp at hline

theorem own_line (h : isKey key) (value : List Char) : own key (key ++ '=' :: value) = true := by
  obtain ⟨k, ks, hk⟩ := List.exists_cons_of_ne_nil (key_ne_nil h)
  have hspace : isSpace k.toNat = false :=
    isSpace_of_keyChar (isKeyChar_of_mem h (hk ▸ List.mem_cons_self))
  refine own_iff.2 ⟨.runtime, value, ?_⟩
  rw [hk, List.cons_append, List.dropWhile_cons_of_neg (by simp [hspace])]
  rfl

theorem own_of_lineEntry (h : isKey key) {line : List Char} {e : EnvEntry} (he : lineEntry line = some e) :
    own key line = true ↔ e.key.toList = key := by
  have hread := readLine_of_lineEntry he
  have hprefix : strip (fun c => isSpace c.toNat) line <+: line.dropWhile (fun c => isSpace c.toNat) :=
    strip_prefix line
  obtain ⟨trailing, htext⟩ := hprefix
  rw [line_of_readLine hread, List.append_assoc, List.append_assoc, List.cons_append] at htext
  rw [own_iff, ← htext]
  constructor
  · rintro ⟨availability, rest, hline⟩
    have hparts := congrArg readAvailability hline
    rw [readAvailability_line (readLine_eq_some hread).1, readAvailability_line h] at hparts
    have hkeys := congrArg (List.takeWhile isKeyChar) (congrArg Prod.snd hparts)
    rwa [takeWhile_key (readLine_eq_some hread).1, takeWhile_key h] at hkeys
  · rintro rfl
    exact ⟨e.availability, _, rfl⟩

/-- A carriage return at the end of a line is not in the way of its key. -/
theorem own_dropReturn (line : List Char) : own key (dropReturn line) = own key line := by
  by_cases h : line.getLast? = some '\r'
  · obtain ⟨init, rfl⟩ := List.getLast?_eq_some_iff.1 h
    have hdrop : dropReturn (init ++ ['\r']) = init := by simp [dropReturn]
    rw [hdrop]
    by_cases hinit : init.dropWhile (fun c => isSpace c.toNat) = []
    · have hline : (init ++ ['\r']).dropWhile (fun c => isSpace c.toNat) = [] := by
        rw [List.dropWhile_append, hinit]
        rfl
      simp only [own, hinit, hline]
    · have hline : (init ++ ['\r']).dropWhile (fun c => isSpace c.toNat) =
          init.dropWhile (fun c => isSpace c.toNat) ++ ['\r'] := by
        rw [List.dropWhile_append, if_neg (by simpa using hinit)]
      have hprefix : ∀ mark : String, mark.toList ++ key ++
        ['='] <+: init.dropWhile (fun c => isSpace c.toNat) ++ ['\r'] ↔
          mark.toList ++ key ++ ['='] <+: init.dropWhile (fun c => isSpace c.toNat) := by
        intro mark
        rw [List.prefix_concat_iff, or_iff_right]
        intro he
        have hchars := List.append_inj_right' he rfl
        cases hchars
      simp only [own, hline, hprefix]
  · rw [dropReturn, if_neg h]

theorem lineEntry_dropReturn (line : List Char) : lineEntry (dropReturn line) = lineEntry line := by
  have hstrip : strip (fun c => isSpace c.toNat) (dropReturn line) =
      strip (fun c => isSpace c.toNat) line := by
    rw [dropReturn]
    split_ifs with h
    · obtain ⟨init, rfl⟩ := List.getLast?_eq_some_iff.1 h
      rw [List.dropLast_concat, strip_concat rfl]
    · rfl
  rw [lineEntry, lineEntry, hstrip]

theorem parseEnvContent_lines (content : String) :
    parseEnvContent content = (lines content.toList).filterMap lineEntry := by
  have hne := List.splitOn_ne_nil '\n' content.toList
  have hpieces : lines content.toList = (content.toList.splitOn '\n').dropLast.map dropReturn ++
    [(content.toList.splitOn '\n').getLast hne] := by
    rw [lines, List.getLast?_eq_some_getLast hne]
    rfl
  have hreturn : lineEntry ∘ dropReturn = lineEntry := funext lineEntry_dropReturn
  rw [parseEnvContent_eq, hpieces, List.filterMap_append, List.filterMap_map, hreturn,
    ← List.filterMap_append, List.dropLast_append_getLast]

end Own

section Next

variable {key value : List Char}

def stands (key line : List Char) : Bool := !own key line && line ≠ []

theorem replaceOwn_cons_own {line : List Char} (hown : own key line = true) (replaced : Bool)
    (ls : List (List Char)) :
    replaceOwn key value replaced (line :: ls) =
      (if replaced then (replaceOwn key value true ls).1 else (key ++ '=' :: value) :: (replaceOwn key value true ls).1,
        (replaceOwn key value true ls).2) := by
  rw [replaceOwn, if_pos hown]

theorem replaceOwn_cons_other {line : List Char} (hown : own key line = false) (replaced : Bool)
    (ls : List (List Char)) :
    replaceOwn key value replaced (line :: ls) = (line :: (replaceOwn key value replaced ls).1, (replaceOwn key value replaced ls).2) := by
  rw [replaceOwn, if_neg (by simp [hown])]

theorem replaceOwn_snd (key value : List Char) (replaced : Bool) (ls : List (List Char)) :
    (replaceOwn key value replaced ls).2 = (replaced || ls.any (own key)) := by
  induction ls generalizing replaced with
  | nil => simp [replaceOwn]
  | cons line ls ih =>
      cases hown : own key line with
      | false => simp [replaceOwn_cons_other hown, ih, hown]
      | true => simp [replaceOwn_cons_own hown, ih, hown]

theorem replaceOwn_own (h : isKey key) (value : List Char) (replaced : Bool) (ls : List (List Char)) :
    (replaceOwn key value replaced ls).1.filter (own key) = if !replaced && ls.any (own key) then [key ++ '=' :: value] else [] := by
  induction ls generalizing replaced with
  | nil => simp [replaceOwn]
  | cons line ls ih =>
      have hnone := ih true
      rw [Bool.not_true, Bool.false_and, if_neg Bool.false_ne_true] at hnone
      cases hown : own key line with
      | false => rw [replaceOwn_cons_other hown, List.filter_cons_of_neg (by simp [hown]), ih, List.any_cons, hown, Bool.false_or]
      | true =>
          rw [replaceOwn_cons_own hown, List.any_cons, hown, Bool.true_or, Bool.and_true]
          cases replaced with
          | false => simp only [Bool.false_eq_true, if_false, Bool.not_false, if_true, List.filter_cons_of_pos (own_line h value), hnone]
          | true => simp only [if_true, Bool.not_true, Bool.false_eq_true, if_false, hnone]

theorem replaceOwn_stands (h : isKey key) (replaced : Bool) (ls : List (List Char)) :
    (replaceOwn key value replaced ls).1.filter (stands key) = ls.filter (stands key) := by
  induction ls generalizing replaced with
  | nil => rfl
  | cons line ls ih =>
      cases hown : own key line with
      | false => rw [replaceOwn_cons_other hown, List.filter_cons, List.filter_cons, ih]
      | true =>
          have hline : ¬ stands key line = true := by simp [stands, hown]
          have hnew : ¬ stands key (key ++ '=' :: value) = true := by simp [stands, own_line h]
          rw [replaceOwn_cons_own hown, List.filter_cons_of_neg hline]
          cases replaced with
          | false => rw [if_neg Bool.false_ne_true, List.filter_cons_of_neg hnew, ih]
          | true => rw [if_pos rfl, ih]

theorem replaceOwn_self {ls : List (List Char)} (h : ls.filter (own key) = [key ++ '=' :: value]) :
    replaceOwn key value false ls = (ls, true) := by
  have hrest : ∀ rest : List (List Char), rest.filter (own key) = [] →
    replaceOwn key value true rest = (rest, true) := by
    intro rest hrest
    induction rest with
    | nil => rfl
    | cons line rest ih =>
        rw [List.filter_eq_nil_iff] at hrest
        have hline : own key line = false := Bool.eq_false_iff.2 (hrest line List.mem_cons_self)
        rw [replaceOwn_cons_other hline, ih]
        exact List.filter_eq_nil_iff.2 fun l hl => hrest l (List.mem_cons_of_mem _ hl)
  induction ls with
  | nil => cases h
  | cons line ls ih =>
      cases hown : own key line with
      | false =>
          rw [List.filter_cons_of_neg (by simp [hown])] at h
          rw [replaceOwn_cons_other hown, ih h]
      | true =>
          rw [List.filter_cons_of_pos hown, List.cons.injEq] at h
          rw [replaceOwn_cons_own hown, hrest ls h.2, h.1]
          rfl

theorem filter_popBlank {p : List Char → Bool} (hp : p [] = false) (ls : List (List Char)) :
    (popBlank ls).filter p = ls.filter p := by
  induction ls using List.reverseRecOn with
  | nil => rfl
  | append_singleton ls line ih =>
      rw [popBlank, List.rdropWhile_concat]
      split_ifs with h
      · rw [decide_eq_true_eq] at h
        rw [List.filter_append, h, ← popBlank, ih]
        simp [hp]
      · rfl

theorem nextLines_own (h : isKey key) (value content : List Char) :
    (nextLines content key value).filter (own key) = [key ++ '=' :: value] := by
  rw [nextLines]
  generalize (if content = [] then [] else lines content) = ls
  have hown := replaceOwn_own h value false ls
  have hall := replaceOwn_snd key value false ls
  dsimp only
  rw [filter_popBlank own_nil, hall]
  cases hany : ls.any (own key)
  · have hnone : (replaceOwn key value false ls).1.filter (own key) = [] := by rw [hown, hany]; rfl
    simp [filter_popBlank own_nil, hnone, own_line h]
  · simp [hown, hany]

theorem nextLines_stands (h : isKey key) (value content : List Char) :
    (nextLines content key value).filter (stands key) = (lines content).filter (stands key) := by
  have hnil : stands key [] = false := by simp [stands]
  have hcontent : (if content = [] then [] else lines content).filter (stands key) =
      (lines content).filter (stands key) := by
    split_ifs with hc
    · rw [hc]
      have hblank : [([] : List Char)].filter (stands key) = [] :=
        List.filter_cons_of_neg (by simp [hnil])
      exact hblank.symm
    · rfl
  have hnew : stands key (key ++ '=' :: value) = false := by simp [stands, own_line h]
  rw [← hcontent, nextLines]
  generalize (if content = [] then [] else lines content) = ls
  dsimp only
  rw [filter_popBlank hnil]
  split_ifs
  · exact replaceOwn_stands h false ls
  · rw [List.filter_append, filter_popBlank hnil, replaceOwn_stands h false ls]
    simp [hnew]

theorem filter_key_eq (h : isKey key) (ls : List (List Char)) :
    (ls.filterMap lineEntry).filter (fun e => e.key.toList = key) = (ls.filter (own key)).filterMap lineEntry := by
  rw [List.filter_filterMap, List.filterMap_filter]
  refine List.filterMap_congr fun line _ => ?_
  cases he : lineEntry line with
  | none => simp
  | some e => simp [own_of_lineEntry h he, Option.filter]

theorem filter_key_ne (h : isKey key) (ls : List (List Char)) :
    (ls.filterMap lineEntry).filter (fun e => e.key.toList ≠ key) = (ls.filter (stands key)).filterMap lineEntry := by
  rw [List.filter_filterMap, List.filterMap_filter]
  refine List.filterMap_congr fun line _ => ?_
  cases he : lineEntry line with
  | none => simp
  | some e =>
      have hne : line ≠ [] := by
        rintro rfl
        cases he
      simp [stands, hne, own_of_lineEntry h he, Option.filter, ← Bool.not_eq_true]

theorem mem_nextLines (h : isKey key) {content line : List Char} (hl : line ∈ nextLines content key value) :
    line = key ++ '=' :: value ∨ line = [] ∨ line ∈ lines content ∧ own key line = false := by
  cases hown : own key line with
  | true =>
      have hmem := List.mem_filter.2 ⟨hl, hown⟩
      rw [nextLines_own h value] at hmem
      exact Or.inl (List.mem_singleton.1 hmem)
  | false =>
      by_cases hne : line = []
      · exact Or.inr (Or.inl hne)
      · have hmem := List.mem_filter.2 ⟨hl, show stands key line = true by simp [stands, hown, hne]⟩
        rw [nextLines_stands h value] at hmem
        exact Or.inr (Or.inr ⟨(List.mem_filter.1 hmem).1, rfl⟩)

variable (h : isKey key) (hvalue : ∀ c ∈ value, isLineTerminator c = false)

include h hvalue

theorem feed_not_mem_line : '\n' ∉ key ++ '=' :: value := by
  rw [List.mem_append, List.mem_cons, not_or, not_or]
  refine ⟨not_mem_key h rfl, by decide, fun hm => ?_⟩
  have hline := hvalue _ hm
  cases hline

theorem getLast_line : (key ++ '=' :: value).getLast? ≠ some '\r' := by
  intro hlast
  have hm := List.mem_of_getLast? hlast
  rw [List.mem_append, List.mem_cons] at hm
  rcases hm with hm | hm | hm
  · exact not_mem_key h rfl hm
  · cases hm
  · have hline := hvalue _ hm
    cases hline

theorem feed_not_mem_nextLines {content line : List Char} (hl : line ∈ nextLines content key value) :
    '\n' ∉ line := by
  rcases mem_nextLines h hl with rfl | rfl | ⟨hmem, -⟩
  · exact feed_not_mem_line h hvalue
  · exact List.not_mem_nil
  · exact feed_not_mem_lines hmem

theorem getLast_nextLines_iff (content : List Char) :
    (∀ line ∈ nextLines content key value, line.getLast? ≠ some '\r') ↔
      ∀ line ∈ lines content, own key line = true ∨ line.getLast? ≠ some '\r' := by
  constructor
  · intro hnext line hl
    cases hown : own key line with
    | true => exact Or.inl rfl
    | false =>
        refine Or.inr fun hlast => ?_
        have hne : line ≠ [] := by
          rintro rfl
          cases hlast
        have hmem := List.mem_filter.2 ⟨hl, show stands key line = true by simp [stands, hown, hne]⟩
        rw [← nextLines_stands h value] at hmem
        exact hnext line (List.mem_filter.1 hmem).1 hlast
  · intro hlines line hl
    rcases mem_nextLines h hl with rfl | rfl | ⟨hmem, hown⟩
    · exact getLast_line h hvalue
    · simp
    · exact (hlines line hmem).resolve_left (by simp [hown])

/-- The second run sees the lines of the first one without their last carriage returns. -/
theorem nextLines_again (content : List Char) :
    nextLines ((nextLines content key value).flatMap (· ++ ['\n'])) key value = popBlank ((nextLines content key value).map dropReturn) := by
  have hown : ((nextLines content key value).map dropReturn ++ [[]]).filter (own key) =
      [key ++ '=' :: value] := by
    have hcomp : own key ∘ dropReturn = own key := funext own_dropReturn
    rw [List.filter_append, List.filter_map, hcomp, nextLines_own h value]
    simp [own_nil, dropReturn_eq_self_iff.2 (getLast_line h hvalue)]
  have hlines :=
    lines_flatMap_of_not_mem fun line (hl : line ∈ nextLines content key value) => feed_not_mem_nextLines h hvalue hl
  generalize nextLines content key value = next at *
  have hne : next.flatMap (· ++ ['\n']) ≠ [] := by
    intro hnil
    rw [← hlines, hnil] at hown
    simp [lines, own_nil] at hown
  rw [nextLines, if_neg hne, hlines, replaceOwn_self hown]
  dsimp only
  rw [if_pos rfl, popBlank, List.rdropWhile_concat_pos _ _ _ (by simp)]
  rfl

omit hvalue in
theorem nextLines_ne_nil (value content : List Char) : nextLines content key value ≠ [] := by
  intro hnil
  have hown := nextLines_own h value content
  rw [hnil] at hown
  cases hown

omit h hvalue in
theorem popBlank_nextLines (content : List Char) :
    popBlank (nextLines content key value) = nextLines content key value := by
  rw [nextLines]
  exact List.rdropWhile_idempotent _ _

theorem nextLines_again_iff (content : List Char) :
    popBlank ((nextLines content key value).map dropReturn) = nextLines content key value ↔
      ∀ line ∈ lines content, own key line = true ∨ line.getLast? ≠ some '\r' := by
  rw [← getLast_nextLines_iff h hvalue, ← map_dropReturn_eq_self_iff]
  constructor
  · intro hpop
    have hinit : popBlank ((nextLines content key value).map dropReturn) <+: (nextLines content key value).map dropReturn :=
      List.rdropWhile_prefix _ _
    have hlength := congrArg List.length hpop
    exact (hinit.eq_of_length (by rw [hlength, List.length_map])).symm.trans hpop
  · intro hmap
    rw [hmap, popBlank_nextLines]

end Next

theorem setEnvVariable_toList {key : String} (h : isKey key.toList) (content value : String) :
    (setEnvVariable content key value).toList = (nextLines content.toList key.toList value.toList).flatMap (· ++ ['\n']) := by
  obtain ⟨line, next, hnext⟩ :=
    List.exists_cons_of_ne_nil (nextLines_ne_nil h value.toList content.toList)
  rw [setEnvVariable, String.toList_ofList, hnext, intercalate_append]

theorem setsVariable_setEnvVariable {key value : String} (h : isKey key.toList)
    (hvalue : ∀ c ∈ value.toList, isLineTerminator c = false)
    (htrimmed : ∀ c ∈ value.toList.getLast?, isSpace c.toNat = false) (content : String) :
    SetsVariable key value (parseEnvContent content) (parseEnvContent (setEnvVariable content key value)) := by
  have hkeys : ∀ e : EnvEntry, e.key = key ↔ e.key.toList = key.toList := fun e => String.toList_inj.symm
  have hnext : parseEnvContent (setEnvVariable content key value) =
      (nextLines content.toList key.toList value.toList).filterMap lineEntry := by
    rw [parseEnvContent_eq, setEnvVariable_toList h,
      splitOn_lines_of_not_mem fun line hl => feed_not_mem_nextLines h hvalue hl, List.filterMap_append]
    exact List.append_nil _
  have hline : lineEntry (key.toList ++ '=' :: value.toList) = some ⟨key, value, .runtime⟩ :=
    lineEntry_entryLine (e := ⟨key, value, .runtime⟩) ⟨h, hvalue, htrimmed⟩
  rw [SetsVariable, hnext, parseEnvContent_lines]
  simp only [hkeys, ne_eq]
  constructor
  · rw [filter_key_eq h, nextLines_own h value.toList]
    simp [hline]
  · have hothers := filter_key_ne h (nextLines content.toList key.toList value.toList)
    rw [nextLines_stands h value.toList, ← filter_key_ne h] at hothers
    exact hothers

/-- Only the entry of the key changes. The text settles at once unless a line that stays ends in a carriage return,
which the next run takes for a part of the line break that was written after it. -/
theorem setEnvVariable_sets_iff (content : String) {key value : String} (h : isKey key.toList)
    (hvalue : ∀ c ∈ value.toList, isLineTerminator c = false)
    (htrimmed : ∀ c ∈ value.toList.getLast?, isSpace c.toNat = false) :
    SetsVariable key value (parseEnvContent content) (parseEnvContent (setEnvVariable content key value)) ∧
      (setEnvVariable (setEnvVariable content key value) key value = setEnvVariable content key value ↔
        ∀ line ∈ lines content.toList, own key.toList line = true ∨ line.getLast? ≠ some '\r') := by
  refine ⟨setsVariable_setEnvVariable h hvalue htrimmed content, ?_⟩
  rw [← nextLines_again_iff h hvalue, ← nextLines_again h hvalue, ← setEnvVariable_toList h]
  constructor
  · intro htext
    have hsplit := congrArg (fun text => text.toList.splitOn '\n') htext
    rw [setEnvVariable_toList h, setEnvVariable_toList h, splitOn_lines_of_not_mem fun line hl => feed_not_mem_nextLines h hvalue hl,
      splitOn_lines_of_not_mem fun line hl => feed_not_mem_nextLines h hvalue hl, ← setEnvVariable_toList h] at hsplit
    exact List.append_inj_left' hsplit rfl
  · intro hnext
    rw [setEnvVariable, hnext]
    rfl

theorem setEnvVariable_sets_comment :
    setEnvVariable (setEnvVariable "# a\r\nboth:K=1\r\n" "K" "v") "K" "v" = setEnvVariable "# a\r\nboth:K=1\r\n" "K" "v" :=
  (@setEnvVariable_sets_iff "# a\r\nboth:K=1\r\n" "K" "v" (by decide) (List.all_iff_forall_prop.1 (by decide)) fun c hc => by cases hc; decide).2.2 (by decide +kernel)

/-- The second run drops a carriage return at the end of another line. -/
theorem setEnvVariable_again :
    setEnvVariable (setEnvVariable "B=1\r" "K" "v") "K" "v" ≠ setEnvVariable "B=1\r" "K" "v" := by
  decide +kernel

end Yeah.Deploy
