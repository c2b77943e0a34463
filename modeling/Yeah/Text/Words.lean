import Mathlib.Data.List.Basic
import Mathlib.Tactic.SplitIfs

namespace Yeah.Text.Words

/-- Where a reader of quoted words stands. -/
inductive Context
  | bare
  | single
  | double
  | escaped
  | escapedDouble
  deriving DecidableEq

variable (separator escapes : Char → Bool)

/-- `escapes` are the characters that a backslash escapes inside double quotes. -/
def next : Context → Char → Context
  | .bare, c => if c = '\'' then .single else if c = '"' then .double else if c = '\\' then .escaped else .bare
  | .single, c => if c = '\'' then .bare else .single
  | .double, c => if c = '"' then .bare else if c = '\\' then .escapedDouble else .double
  | .escaped, _ => .bare
  | .escapedDouble, c => if escapes c then .double else if c = '\\' then .escapedDouble else .double

def emit : Context → Char → List Char
  | .bare, c => if c = '\'' || c = '"' || c = '\\' then [] else [c]
  | .single, c => if c = '\'' then [] else [c]
  | .double, c => if c = '"' || c = '\\' then [] else [c]
  | .escaped, c => [c]
  | .escapedDouble, c => if escapes c then [c] else if c = '\\' then ['\\'] else ['\\', c]

/-- The words of a text, `none` if a quote stays open; `w` is the word that is being read. A backslash at the very end
stands for itself. -/
def cut : Context → Option (List Char) → List Char → Option (List (List Char))
  | .bare, w, [] => some w.toList
  | .escaped, w, [] => some [w.getD [] ++ ['\\']]
  | _, _, [] => none
  | m, w, c :: cs =>
      if m = .bare ∧ separator c then (cut .bare none cs).map (w.toList ++ ·)
      else cut (next escapes m c) (some (w.getD [] ++ emit escapes m c)) cs

variable {separator escapes} {m : Context} {w : Option (List Char)} {t : List Char} {ws : List (List Char)}

theorem cut_separator {c : Char} (hc : separator c = true) (cs : List Char) :
    cut separator escapes .bare w (c :: cs) = (cut separator escapes .bare none cs).map (w.toList ++ ·) := by
  rw [cut, if_pos ⟨rfl, hc⟩]

theorem cut_cons {c : Char} (h : ¬ (m = .bare ∧ separator c = true)) (cs : List Char) :
    cut separator escapes m w (c :: cs) = cut separator escapes (next escapes m c) (some (w.getD [] ++ emit escapes m c)) cs := by
  rw [cut, if_neg h]

theorem cut_extends {u : List Char} (h : cut separator escapes m (some u) t = some ws) :
    ∃ v rest, ws = (u ++ v) :: rest := by
  induction t generalizing m u with
  | nil =>
      cases m with
      | bare => exact ⟨[], [], by simpa [cut] using h.symm⟩
      | escaped => exact ⟨['\\'], [], by simpa [cut] using h.symm⟩
      | single | double | escapedDouble => cases h
  | cons c cs ih =>
      by_cases hc : m = .bare ∧ separator c = true
      · obtain ⟨rfl, hc⟩ := hc
        rw [cut_separator hc] at h
        obtain ⟨rest, -, rfl⟩ := Option.map_eq_some_iff.1 h
        exact ⟨[], rest, by simp⟩
      · rw [cut_cons hc] at h
        obtain ⟨v, rest, rfl⟩ := ih h
        exact ⟨emit escapes m c ++ v, rest, by simp⟩

/-- A text in single quotes, its own ones closed, escaped and opened again. -/
theorem cut_quoted (hseparator : separator '\'' = false ∧ separator '\\' = false) (a u rest : List Char) :
    cut separator escapes .single (some u) (a.flatMap (fun c => if c = '\'' then ['\'', '\\', '\'', '\''] else [c]) ++ '\'' :: rest) =
      cut separator escapes .bare (some (u ++ a)) rest := by
  have hquote : ¬ (Context.bare = .bare ∧ separator '\'' = true) := by simp [hseparator]
  have hslash : ¬ (Context.bare = .bare ∧ separator '\\' = true) := by simp [hseparator]
  induction a generalizing u with
  | nil => simp [cut_cons, next, emit]
  | cons c a ih =>
      by_cases hc : c = '\''
      · have hopen : cut separator escapes .single (some u) ('\'' :: '\\' :: '\'' :: '\'' ::
            (a.flatMap (fun c => if c = '\'' then ['\'', '\\', '\'', '\''] else [c]) ++ '\'' :: rest)) =
            cut separator escapes .single (some (u ++ ['\''])) (a.flatMap (fun c => if c = '\'' then ['\'', '\\', '\'', '\''] else [c]) ++ '\'' :: rest) := by
          rw [cut_cons (by simp)]
          rw [show next escapes .single '\'' = .bare from rfl, cut_cons hslash]
          rw [show next escapes .bare '\\' = .escaped from rfl, cut_cons (by simp)]
          rw [show next escapes .escaped '\'' = .bare from rfl, cut_cons hquote]
          simp [next, emit]
        rw [List.flatMap_cons, if_pos hc, List.append_assoc]
        refine hopen.trans ((ih (u ++ ['\''])).trans ?_)
        rw [hc, List.append_assoc]
        rfl
      · rw [List.flatMap_cons, if_neg hc, List.append_assoc, List.singleton_append, cut_cons (by simp)]
        simp only [next, emit, if_neg hc, Option.getD_some]
        rw [ih, List.append_assoc]
        rfl

def closed : Context → Bool
  | .bare => true
  | .escaped => true
  | .single => false
  | .double => false
  | .escapedDouble => false

theorem cut_isSome (hseparator : ∀ c, separator c = true → next escapes .bare c = .bare) :
    (cut separator escapes m w t).isSome = closed (t.foldl (next escapes) m) := by
  induction t generalizing m w with
  | nil => cases m <;> rfl
  | cons c cs ih =>
      rw [List.foldl_cons]
      by_cases hc : m = .bare ∧ separator c = true
      · obtain ⟨rfl, hc⟩ := hc
        rw [cut_separator hc, Option.isSome_map, ih, hseparator c hc]
      · rw [cut_cons hc, ih]

section Count

variable {a : Char} (ha : a ≠ '\'' ∧ a ≠ '"' ∧ a ≠ '\\')

include ha

/-- An ordinary character goes into the word in every context. -/
theorem count_emit (m : Context) (c : Char) : (emit escapes m c).count a = [c].count a := by
  obtain ⟨hsingle, hdouble, hslash⟩ := ha
  have hslash' : ['\\'].count a = 0 := List.count_eq_zero.2 (by simpa using hslash)
  cases m with
  | bare =>
      rw [emit]
      split_ifs with h
      · simp only [Bool.or_eq_true, decide_eq_true_eq] at h
        rcases h with (rfl | rfl) | rfl <;> simp [Ne.symm, *]
      · rfl
  | single =>
      rw [emit]
      split_ifs with h
      · rw [h]
        simp [Ne.symm hsingle]
      · rfl
  | double =>
      rw [emit]
      split_ifs with h
      · simp only [Bool.or_eq_true, decide_eq_true_eq] at h
        rcases h with rfl | rfl <;> simp [Ne.symm, *]
      · rfl
  | escaped => rfl
  | escapedDouble =>
      rw [emit]
      split_ifs with h h'
      · rfl
      · rw [h']
      · rw [List.count_cons_of_ne (Ne.symm hslash)]

theorem count_cut_le (h : cut separator escapes m w t = some ws) :
    ws.flatten.count a ≤ (w.getD []).count a + t.count a := by
  induction t generalizing m w ws with
  | nil =>
      cases m with
      | bare =>
          obtain rfl : w.toList = ws := Option.some_inj.1 h
          cases w <;> simp
      | escaped =>
          obtain rfl : [w.getD [] ++ ['\\']] = ws := Option.some_inj.1 h
          simp [Ne.symm ha.2.2]
      | single | double | escapedDouble => cases h
  | cons c cs ih =>
      by_cases hc : m = .bare ∧ separator c = true
      · obtain ⟨rfl, hc⟩ := hc
        rw [cut_separator hc] at h
        obtain ⟨rest, hrest, rfl⟩ := Option.map_eq_some_iff.1 h
        have hcount := ih hrest
        have hcs : cs.count a ≤ (c :: cs).count a := List.count_le_count_cons
        have hw : w.toList.flatten = w.getD [] := by cases w <;> simp
        rw [List.flatten_append, List.count_append, hw]
        simp only [Option.getD_none, List.count_nil] at hcount
        omega
      · rw [cut_cons hc] at h
        have hcount := ih h
        have hcs : (c :: cs).count a = [c].count a + cs.count a := by
          rw [← List.count_append, List.singleton_append]
        rw [Option.getD_some, List.count_append, count_emit ha] at hcount
        omega

theorem count_cut (hseparator : separator a = false) (h : cut separator escapes m w t = some ws) :
    ws.flatten.count a = (w.getD []).count a + t.count a := by
  induction t generalizing m w ws with
  | nil =>
      cases m with
      | bare =>
          obtain rfl : w.toList = ws := Option.some_inj.1 h
          cases w <;> simp
      | escaped =>
          obtain rfl : [w.getD [] ++ ['\\']] = ws := Option.some_inj.1 h
          simp [Ne.symm ha.2.2]
      | single | double | escapedDouble => cases h
  | cons c cs ih =>
      by_cases hc : m = .bare ∧ separator c = true
      · obtain ⟨rfl, hc⟩ := hc
        have hne : c ≠ a := by
          rintro rfl
          simp [hc] at hseparator
        rw [cut_separator hc] at h
        obtain ⟨rest, hrest, rfl⟩ := Option.map_eq_some_iff.1 h
        have hcount := ih hrest
        have hw : w.toList.flatten = w.getD [] := by cases w <;> simp
        rw [List.flatten_append, List.count_append, hw, List.count_cons_of_ne hne, hcount]
        simp
      · rw [cut_cons hc] at h
        have hcount := ih h
        have hcs : (c :: cs).count a = [c].count a + cs.count a := by
          rw [← List.count_append, List.singleton_append]
        rw [Option.getD_some, List.count_append, count_emit ha] at hcount
        omega

end Count

end Yeah.Text.Words
