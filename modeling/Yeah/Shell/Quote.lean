import Mathlib.Data.List.Basic

namespace Yeah.Shell

/-- Quotes a value for a POSIX shell command (single-quote style). -/
def shellQuote (value : String) : String :=
  "'" ++ String.ofList (value.toList.flatMap fun c => if c = '\'' then "'\\''".toList else [c]) ++ "'"

/-- The characters with a meaning of their own outside quotes, blanks and quotes apart. -/
def isSpecial (c : Char) : Bool := c ∈ "\"$`;&|<>()*?[]\x7b\x7d#~!\n\t\r".toList

/-- A character that stands for itself in a word without quotes. -/
def Plain (c : Char) : Prop := c ≠ ' ' ∧ c ≠ '\'' ∧ c ≠ '\\' ∧ isSpecial c = false

inductive Mode
  | bare
  | quoted
  | escaped

/-- The words of a simple command, `none` where it takes more of the shell's grammar than blanks, single quotes
and backslashes. `w` is the word that is being read. -/
def readWords : Mode → Option (List Char) → List Char → Option (List (List Char))
  | .bare, w, [] => some w.toList
  | .quoted, _, [] => none
  | .escaped, _, [] => none
  | .quoted, w, c :: cs =>
      if c = '\'' then readWords .bare w cs else readWords .quoted (some (w.getD [] ++ [c])) cs
  | .escaped, w, c :: cs => readWords .bare (some (w.getD [] ++ [c])) cs
  | .bare, w, c :: cs =>
      if c = ' ' then (readWords .bare none cs).map (w.toList ++ ·)
      else if c = '\'' then readWords .quoted (some (w.getD [])) cs
      else if c = '\\' then readWords .escaped (some (w.getD [])) cs
      else if isSpecial c then none
      else readWords .bare (some (w.getD [] ++ [c])) cs

def words (command : String) : Option (List String) :=
  (readWords .bare none command.toList).map (·.map String.ofList)

theorem readWords_body (a w rest : List Char) :
    readWords .quoted (some w) (a.flatMap (fun c => if c = '\'' then "'\\''".toList else [c]) ++ '\'' :: rest) =
      readWords .bare (some (w ++ a)) rest := by
  induction a generalizing w with
  | nil => simp [readWords]
  | cons c a ih =>
      by_cases hc : c = '\''
      · have hs : "'\\''".toList = ['\'', '\\', '\'', '\''] := rfl
        subst hc
        simp only [List.flatMap_cons, if_true, hs, List.cons_append, List.nil_append, readWords]
        simpa using ih (w ++ ['\''])
      · simp only [List.flatMap_cons, if_neg hc, List.cons_append, List.nil_append, readWords]
        simpa using ih (w ++ [c])

/-- A quoted value is read back as it is, whatever it holds. -/
theorem readWords_quote (a : String) (w : Option (List Char)) (rest : List Char) :
    readWords .bare w ((shellQuote a).toList ++ rest) = readWords .bare (some (w.getD [] ++ a.toList)) rest := by
  have hopen : "'".toList = ['\''] := rfl
  simp only [shellQuote, String.toList_append, String.toList_ofList, hopen, List.cons_append, List.nil_append,
    List.append_assoc, readWords]
  exact readWords_body a.toList (w.getD []) rest

theorem readWords_char {c : Char} (hc : Plain c) (w : Option (List Char)) (rest : List Char) :
    readWords .bare w (c :: rest) = readWords .bare (some (w.getD [] ++ [c])) rest := by
  obtain ⟨hb, hq, he, hs⟩ := hc
  rw [readWords, if_neg hb, if_neg hq, if_neg he, hs]
  rfl

theorem readWords_some {t : List Char} (ht : ∀ c ∈ t, Plain c) (w rest : List Char) :
    readWords .bare (some w) (t ++ rest) = readWords .bare (some (w ++ t)) rest := by
  induction t generalizing w with
  | nil => simp
  | cons c t ih =>
      rw [List.cons_append, readWords_char (ht c (by simp)), ih fun d hd => ht d (by simp [hd])]
      simp

theorem readWords_plain {t : List Char} (ht : ∀ c ∈ t, Plain c) (hne : t ≠ []) (rest : List Char) :
    readWords .bare none (t ++ rest) = readWords .bare (some t) rest := by
  obtain ⟨c, t, rfl⟩ := List.exists_cons_of_ne_nil hne
  rw [List.cons_append, readWords_char (ht c (by simp)), readWords_some fun d hd => ht d (by simp [hd])]
  rfl

theorem readWords_blank (w : Option (List Char)) (rest : List Char) :
    readWords .bare w (' ' :: rest) = (readWords .bare none rest).map (w.toList ++ ·) := rfl

end Yeah.Shell
