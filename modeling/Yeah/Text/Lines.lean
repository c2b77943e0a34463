import Yeah.Text.Replace
import Mathlib.Data.List.Basic
import Mathlib.Data.List.Infix
import Mathlib.Tactic.SplitIfs

namespace Yeah.Text

def dropReturn (line : List Char) : List Char := if line.getLast? = some '\r' then line.dropLast else line

/-- `split(/\r?\n/)` -/
def lines (text : List Char) : List (List Char) :=
  let pieces := text.splitOn '\n'
  pieces.dropLast.map dropReturn ++ pieces.getLast?.toList

theorem lines_append_feed (s t : List Char) :
    lines (s ++ '\n' :: t) = (s.splitOn '\n').map dropReturn ++ lines t := by
  have hne := List.splitOn_ne_nil '\n' t
  rw [lines, lines, List.splitOn_append_cons_self]
  simp only [List.dropLast_append_of_ne_nil hne, List.getLast?_append_of_ne_nil _ hne, List.map_append,
    List.append_assoc]

theorem mem_intercalate {α : Type} {sep : List α} {ls : List (List α)} {c : α}
    (h : c ∈ sep.intercalate ls) :
    c ∈ sep ∨ ∃ l ∈ ls, c ∈ l := by
  induction ls with
  | nil => cases h
  | cons a ls ih =>
      cases ls with
      | nil => exact Or.inr ⟨a, by simp, by simpa using h⟩
      | cons b ls =>
          rw [List.intercalate_cons_cons, List.append_assoc, List.mem_append, List.mem_append] at h
          rcases h with h | h | h
          · exact Or.inr ⟨a, by simp, h⟩
          · exact Or.inl h
          · exact (ih h).imp id fun ⟨l, hl, hc⟩ => ⟨l, by simp_all, hc⟩

theorem mem_intercalate_of_mem {α : Type} (sep : List α) {ls : List (List α)} {l : List α} {c : α}
    (hl : l ∈ ls) (hc : c ∈ l) :
    c ∈ sep.intercalate ls := by
  induction ls with
  | nil => cases hl
  | cons a ls ih =>
      cases ls with
      | nil =>
          obtain rfl : l = a := List.mem_singleton.1 hl
          simpa using hc
      | cons b ls =>
          rw [List.intercalate_cons_cons, List.append_assoc, List.mem_append, List.mem_append]
          rcases List.mem_cons.1 hl with rfl | hl
          · exact Or.inl hc
          · exact Or.inr (Or.inr (ih hl))

theorem dropReturn_eq_self_iff {line : List Char} :
    dropReturn line = line ↔ line.getLast? ≠ some '\r' := by
  rw [dropReturn]
  split_ifs with h
  · refine iff_of_false (fun he => ?_) fun hn => hn h
    have hlength := congrArg List.length he
    have hne : line ≠ [] := by
      rintro rfl
      cases h
    have hpos := List.length_pos_iff.2 hne
    rw [List.length_dropLast] at hlength
    omega
  · exact iff_of_true rfl h

theorem dropReturn_of_not_mem {line : List Char} (h : '\r' ∉ line) : dropReturn line = line :=
  dropReturn_eq_self_iff.2 fun hl => h (List.mem_of_getLast? hl)

theorem splitOn_lines (ls : List (List Char)) :
    (ls.flatMap (· ++ ['\n'])).splitOn '\n' = ls.flatMap (·.splitOn '\n') ++ [[]] := by
  induction ls with
  | nil => rfl
  | cons line ls ih =>
      rw [List.flatMap_cons, List.append_assoc, List.singleton_append, List.splitOn_append_cons_self, ih,
        List.flatMap_cons, List.append_assoc]

variable {ls : List (List Char)}

theorem splitOn_lines_of_not_mem (h : ∀ line ∈ ls, '\n' ∉ line) :
    (ls.flatMap (· ++ ['\n'])).splitOn '\n' = ls ++ [[]] := by
  rw [splitOn_lines, List.flatMap_congr fun line hl => List.splitOn_eq_singleton (h line hl)]
  simp

theorem lines_flatMap_of_not_mem (h : ∀ line ∈ ls, '\n' ∉ line) :
    lines (ls.flatMap (· ++ ['\n'])) = ls.map dropReturn ++ [[]] := by
  rw [lines, splitOn_lines_of_not_mem h]
  simp

theorem map_dropReturn_eq_self_iff : ls.map dropReturn = ls ↔ ∀ line ∈ ls, line.getLast? ≠ some '\r' := by
  conv_lhs => rhs; rw [← List.map_id ls]
  rw [List.map_inj_left]
  simp only [id_eq, dropReturn_eq_self_iff]

theorem lines_flatMap (h : ∀ line ∈ ls, '\n' ∉ line ∧ '\r' ∉ line) :
    lines (ls.flatMap (· ++ ['\n'])) = ls ++ [[]] := by
  have hreturn : ls.map dropReturn = ls :=
    map_dropReturn_eq_self_iff.2 fun line hl hr => (h line hl).2 (List.mem_of_getLast? hr)
  rw [lines_flatMap_of_not_mem fun line hl => (h line hl).1, hreturn]

theorem not_mem_dropReturn {line : List Char} {c : Char} (h : c ∉ line) : c ∉ dropReturn line := by
  rw [dropReturn]
  split_ifs
  · exact fun hm => h (List.mem_of_mem_dropLast hm)
  · exact h

theorem feed_not_mem_lines {text line : List Char} (h : line ∈ lines text) : '\n' ∉ line := by
  rcases List.mem_append.1 h with h | h
  · obtain ⟨piece, hpiece, rfl⟩ := List.mem_map.1 h
    exact not_mem_dropReturn (notMem_of_mem_splitOn (List.mem_of_mem_dropLast hpiece))
  · exact notMem_of_mem_splitOn (List.mem_of_getLast? (Option.mem_toList.1 h))

theorem lines_intercalate (h : ∀ line ∈ ls, '\n' ∉ line ∧ '\r' ∉ line) (hne : ls ≠ []) :
    lines (['\n'].intercalate ls) = ls := by
  have hlast : ls.dropLast ++ ls.getLast?.toList = ls := by
    rw [List.getLast?_eq_some_getLast hne, Option.toList_some, List.dropLast_append_getLast]
  have hreturn : ls.dropLast.map dropReturn = ls.dropLast := by
    conv_rhs => rw [← List.map_id ls.dropLast]
    exact List.map_congr_left fun line hl => dropReturn_of_not_mem (h line (List.mem_of_mem_dropLast hl)).2
  rw [lines, List.splitOn_intercalate _ (fun line hl => (h line hl).1) hne, hreturn, hlast]

end Yeah.Text
