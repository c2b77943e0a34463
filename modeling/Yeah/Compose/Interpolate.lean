import Mathlib.Data.List.Basic

namespace Yeah.Compose

def isNameStart (c : Char) : Bool := c.isAlpha || c = '_'

def isNameChar (c : Char) : Bool := isNameStart c || c.isDigit

/-- Where Compose stands in a value; names come with the characters read so far. -/
inductive Mode
  | text
  | dollar
  | name (read : List Char)
  | brace (read : List Char)

/-- Compose's reading of a value, with the variables `env`; `none` where a `$` begins nothing that it knows. -/
def interpolate (env : List Char → List Char) : Mode → List Char → Option (List Char)
  | .text, [] => some []
  | .dollar, [] => none
  | .name read, [] => some (env read)
  | .brace _, [] => none
  | .text, c :: cs => if c = '$' then interpolate env .dollar cs else (interpolate env .text cs).map (c :: ·)
  | .dollar, c :: cs =>
      if c = '$' then (interpolate env .text cs).map (c :: ·)
      else if c = '\x7b' then interpolate env (.brace []) cs
      else if isNameStart c then interpolate env (.name [c]) cs
      else none
  | .name read, c :: cs =>
      if isNameChar c then interpolate env (.name (read ++ [c])) cs
      else if c = '$' then (interpolate env .dollar cs).map (env read ++ ·)
      else (interpolate env .text cs).map fun rest => env read ++ c :: rest
  | .brace read, c :: cs =>
      if c = '\x7d' then if read.head?.any isNameStart then (interpolate env .text cs).map (env read ++ ·) else none
      else if isNameChar c then interpolate env (.brace (read ++ [c])) cs
      else none

/-- A `$` that stands for itself is written twice. -/
def escapeDollar (l : List Char) : List Char := l.flatMap fun c => if c = '$' then ['$', '$'] else [c]

theorem interpolate_escapeDollar (env : List Char → List Char) (l : List Char) :
    interpolate env .text (escapeDollar l) = some l := by
  induction l with
  | nil => rfl
  | cons c l ih =>
      rw [escapeDollar, List.flatMap_cons, ← escapeDollar]
      split_ifs with hc
      · subst hc
        simp [interpolate, ih]
      · simp [interpolate, hc, ih]

theorem escapeDollar_of_notMem {l : List Char} (h : '$' ∉ l) : escapeDollar l = l := by
  induction l with
  | nil => rfl
  | cons c l ih =>
      have hc : c ≠ '$' := fun he => h (by simp [he])
      have hl : l.flatMap (fun c => if c = '$' then ['$', '$'] else [c]) = l :=
        ih fun hm => h (by simp [hm])
      rw [escapeDollar, List.flatMap_cons, if_neg hc, hl]
      rfl

theorem interpolate_of_notMem (env : List Char → List Char) {l : List Char} (h : '$' ∉ l) :
    interpolate env .text l = some l := by
  have := interpolate_escapeDollar env l
  rwa [escapeDollar_of_notMem h] at this

/-- A name that has been read may still give one character. -/
def Mode.slack : Mode → Nat
  | .name _ => 1
  | _ => 0

section Length

variable {env : List Char → List Char} (henv : ∀ name, (env name).length ≤ 1)

include henv

/-- Where no variable is longer than one character, no value grows. -/
theorem length_interpolate (m : Mode) (l r : List Char) (h : interpolate env m l = some r) :
    r.length ≤ l.length + m.slack := by
  induction l generalizing m r with
  | nil =>
      cases m with
      | name read =>
          cases h
          exact Nat.le_trans (henv read) (Nat.le_add_left _ _)
      | text => simp [interpolate] at h; simp [← h]
      | dollar => simp [interpolate] at h
      | brace read => simp [interpolate] at h
  | cons c cs ih =>
      cases m with
      | text =>
          rw [interpolate] at h
          split_ifs at h
          · exact Nat.le_succ_of_le (ih .dollar r h)
          · obtain ⟨r', h', rfl⟩ := Option.map_eq_some_iff.1 h
            exact Nat.succ_le_succ (ih .text r' h')
      | dollar =>
          rw [interpolate] at h
          split_ifs at h
          · obtain ⟨r', h', rfl⟩ := Option.map_eq_some_iff.1 h
            exact Nat.succ_le_succ (ih .text r' h')
          · exact Nat.le_succ_of_le (ih (.brace []) r h)
          · exact ih (.name [c]) r h
      | name read =>
          have hread := henv read
          rw [interpolate] at h
          split_ifs at h
          · exact Nat.le_succ_of_le (ih (.name (read ++ [c])) r h)
          · obtain ⟨r', h', rfl⟩ := Option.map_eq_some_iff.1 h
            have hr := ih .dollar r' h'
            simp only [List.length_append, List.length_cons, Mode.slack] at hr ⊢
            omega
          · obtain ⟨r', h', rfl⟩ := Option.map_eq_some_iff.1 h
            have hr := ih .text r' h'
            simp only [List.length_append, List.length_cons, Mode.slack] at hr ⊢
            omega
      | brace read =>
          have hread := henv read
          rw [interpolate] at h
          split_ifs at h
          · obtain ⟨r', h', rfl⟩ := Option.map_eq_some_iff.1 h
            have hr := ih .text r' h'
            simp only [List.length_append, List.length_cons, Mode.slack] at hr ⊢
            omega
          · exact Nat.le_succ_of_le (ih (.brace (read ++ [c])) r h)

theorem length_interpolate_lt {l r : List Char} (hl : '$' ∈ l) (h : interpolate env .text l = some r) :
    r.length < l.length := by
  induction l generalizing r with
  | nil => cases hl
  | cons c cs ih =>
      rw [interpolate] at h
      split_ifs at h with hc
      · exact Nat.lt_succ_of_le (length_interpolate henv .dollar cs r h)
      · obtain ⟨r', h', rfl⟩ := Option.map_eq_some_iff.1 h
        have hcs : '$' ∈ cs := (List.mem_cons.1 hl).resolve_left (Ne.symm hc)
        exact Nat.succ_lt_succ (ih hcs h')

end Length

/-- Only a value without a `$` stands for itself whatever the variables are. -/
theorem interpolate_self_iff (l : List Char) : (∀ env, interpolate env .text l = some l) ↔ '$' ∉ l :=
  ⟨fun h hl => absurd (length_interpolate_lt (fun _ => Nat.zero_le _) hl (h fun _ => [])) (Nat.lt_irrefl _),
    fun h env => interpolate_of_notMem env h⟩

end Yeah.Compose
