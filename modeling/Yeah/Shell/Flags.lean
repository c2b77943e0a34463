import Mathlib.Data.List.TakeWhile
import Mathlib.Tactic.SplitIfs

namespace Yeah.Shell.Flags

/-- The flags that a program knows: a flag that takes no value stands for `true`. -/
structure Table where
  takesValue : String → Option Bool
  letter : Char → Option String

abbrev Setting := String × String

/-- What one argument is, where a flag may begin. -/
inductive Reading
  | word
  | stop
  | bad
  | settings (set : List Setting)
  | opens (set : List Setting) (name : String)

/-- How the flags of a command line end. -/
inductive Ending
  | closed
  | missing (name : String)
  | words (args : List String)
  deriving DecidableEq

variable (t : Table)

/-- A long flag and what stands behind its name. -/
def readValue (name : String) (rest : List Char) : Reading :=
  match t.takesValue name, rest with
  | none, _ => .bad
  | some _, _ :: value => .settings [(name, String.ofList value)]
  | some true, [] => .opens [] name
  | some false, [] => .settings [(name, "true")]

/-- `--name`, `--name=value` -/
def readLong (text : List Char) : Reading :=
  if text = [] then .stop
  else if text.head? = some '-' ∨ text.head? = some '=' then .bad
  else readValue t (String.ofList (text.takeWhile (· ≠ '='))) (text.dropWhile (· ≠ '='))

/-- Letters in a row; the first one that takes a value takes the rest of the argument, or the next one. -/
def readShort : List Char → Reading
  | [] => .settings []
  | c :: rest =>
      match t.letter c with
      | none => .bad
      | some name =>
          match t.takesValue name with
          | none => .bad
          | some takes =>
              if rest.head? = some '=' ∧ 2 ≤ rest.length then .settings [(name, String.ofList (rest.drop 1))]
              else if takes then
                if rest = [] then .opens [] name else .settings [(name, String.ofList rest)]
              else match readShort rest with
                | .settings set => .settings ((name, "true") :: set)
                | .opens set last => .opens ((name, "true") :: set) last
                | other => other

def readArg (arg : String) : Reading :=
  match arg.toList with
  | '-' :: '-' :: text => readLong t text
  | '-' :: c :: text => readShort t (c :: text)
  | _ => .word

/-- Flags up to the first word that is none; `name` is the flag that waits for its value. -/
def readArgs : Option String → List String → Option (List Setting × Ending)
  | none, [] => some ([], .closed)
  | some name, [] => some ([], .missing name)
  | some name, value :: rest => (readArgs none rest).map fun r => ((name, value) :: r.1, r.2)
  | none, arg :: rest =>
      match readArg t arg with
      | .word => some ([], .words (arg :: rest))
      | .stop => some ([], .words rest)
      | .bad => none
      | .settings set => (readArgs none rest).map fun r => (set ++ r.1, r.2)
      | .opens set name => (readArgs (some name) rest).map fun r => (set ++ r.1, r.2)

/-- What comes after flags that have been read. -/
def resume (r : List Setting × Ending) (rest : List String) : Option (List Setting × Ending) :=
  match r.2 with
  | .closed => (readArgs t none rest).map fun s => (r.1 ++ s.1, s.2)
  | .missing name => (readArgs t (some name) rest).map fun s => (r.1 ++ s.1, s.2)
  | .words args => some (r.1, .words (args ++ rest))

variable {t}

theorem resume_map (set : List Setting) (r : List Setting × Ending) (rest : List String) :
    resume t (set ++ r.1, r.2) rest = (resume t r rest).map fun s => (set ++ s.1, s.2) := by
  obtain ⟨have', ending⟩ := r
  cases ending with
  | closed | missing => simp [resume, Function.comp_def]
  | words args => rfl

theorem readArgs_append (waiting : Option String) (xs ys : List String) :
    readArgs t waiting (xs ++ ys) = (readArgs t waiting xs).bind fun r => resume t r ys := by
  induction xs generalizing waiting with
  | nil =>
      cases waiting <;> simp [readArgs, resume]
  | cons x xs ih =>
      have hmap : ∀ (set : List Setting) (next : Option String), ((readArgs t next (xs ++ ys)).map fun r => (set ++ r.1, r.2)) =
          ((readArgs t next xs).map fun r => (set ++ r.1, r.2)).bind fun r => resume t r ys := by
        intro set next
        rw [ih, Option.map_bind, Option.bind_map]
        exact Option.bind_congr fun r _ => (resume_map set r ys).symm
      cases waiting with
      | some name => exact hmap [(name, x)] none
      | none =>
          rw [List.cons_append, readArgs, readArgs]
          cases readArg t x with
          | word => rfl
          | stop => rfl
          | bad => rfl
          | settings set => exact hmap set none
          | opens set name => exact hmap set (some name)

/-- Arguments that are flags with all their values. -/
def Reads (t : Table) (args : List String) (set : List Setting) : Prop :=
  readArgs t none args = some (set, .closed)

instance (args : List String) (set : List Setting) : Decidable (Reads t args set) :=
  inferInstanceAs (Decidable (_ = _))

theorem Reads.nil : Reads t [] [] := rfl

theorem Reads.append {xs ys : List String} {set set' : List Setting} (h : Reads t xs set)
    (h' : Reads t ys set') : Reads t (xs ++ ys) (set ++ set') := by
  rw [Reads, readArgs_append, h, Option.bind_some, resume, h']
  rfl

/-- Flags in front of any arguments. -/
theorem Reads.readArgs_append {xs : List String} {set : List Setting} (h : Reads t xs set)
    (ys : List String) :
    readArgs t none (xs ++ ys) = (readArgs t none ys).map fun s => (set ++ s.1, s.2) := by
  rw [Flags.readArgs_append, h]
  rfl

theorem reads_value {arg name value : String} (h : readArg t arg = .opens [] name) :
    Reads t [arg, value] [(name, value)] := by
  rw [Reads, readArgs, h]
  rfl

theorem reads_settings {arg : String} {set : List Setting} (h : readArg t arg = .settings set) :
    Reads t [arg] set := by
  rw [Reads, readArgs, h]
  simp [readArgs]

section Long

/-- A name that can stand after `--`. -/
def isName (name : String) : Bool := name.toList.head?.any (· ≠ '-') && '=' ∉ name.toList

variable {name : String}

theorem readLong_eq (h : isName name) (rest : List Char)
    (hrest : rest = [] ∨ ∃ value, rest = '=' :: value) :
    readLong t (name.toList ++ rest) = readValue t name rest := by
  rw [isName, Bool.and_eq_true, Option.any_eq_true, decide_eq_true_eq] at h
  obtain ⟨⟨c, hc, hdash⟩, hequals⟩ := h
  rw [decide_eq_true_eq] at hdash
  have hpos : ∀ d ∈ name.toList, decide (d ≠ '=') = true :=
    fun d hd => decide_eq_true fun he => hequals (he ▸ hd)
  have hne : name.toList ≠ [] := by
    intro hnil
    rw [hnil] at hc
    cases hc
  have htake : (name.toList ++ rest).takeWhile (· ≠ '=') = name.toList := by
    rw [List.takeWhile_append_of_pos hpos]
    rcases hrest with rfl | ⟨value, rfl⟩ <;> simp
  have hdrop : (name.toList ++ rest).dropWhile (· ≠ '=') = rest := by
    rw [List.dropWhile_append_of_pos hpos]
    rcases hrest with rfl | ⟨value, rfl⟩ <;> simp
  have hhead : (name.toList ++ rest).head? = some c := by rw [List.head?_append, hc, Option.some_or]
  have hcequals : c ≠ '=' := fun he => hequals (he ▸ List.mem_of_head? hc)
  rw [readLong, htake, hdrop, String.ofList_toList, if_neg (by simp [hne]), hhead,
    if_neg (by simp [hdash, hcequals])]

theorem readArg_long (h : isName name) (hname : t.takesValue name = some true) :
    readArg t ("--" ++ name) = .opens [] name := by
  have hchars : ("--" ++ name).toList = '-' :: '-' :: (name.toList ++ []) := by
    rw [String.toList_append, List.append_nil]; rfl
  rw [readArg, hchars]
  refine (readLong_eq h [] (Or.inl rfl)).trans ?_
  simp only [readValue, hname]

theorem readArg_equals (h : isName name) {takes : Bool} (hname : t.takesValue name = some takes)
    (value : String) :
    readArg t ("--" ++ name ++ "=" ++ value) = .settings [(name, value)] := by
  have hchars : ("--" ++ name ++ "=" ++ value).toList =
      '-' :: '-' :: (name.toList ++ '=' :: value.toList) := by
    rw [String.toList_append, String.toList_append, String.toList_append, List.append_assoc,
      List.append_assoc]
    rfl
  rw [readArg, hchars]
  refine (readLong_eq h ('=' :: value.toList) (Or.inr ⟨_, rfl⟩)).trans ?_
  simp only [readValue, hname, String.ofList_toList]

end Long

theorem readArg_letter {c : Char} {arg name : String} (harg : arg.toList = ['-', c]) (hc : c ≠ '-')
    (hletter : t.letter c = some name)
    (hname : t.takesValue name = some true) : readArg t arg = .opens [] name := by
  rw [readArg, harg]
  split
  · next he => exact absurd (List.cons.inj (List.cons.inj he).2).1 hc
  · next c' text _ he =>
      obtain ⟨rfl, rfl⟩ := List.cons.inj (List.cons.inj he).2
      rw [readShort, hletter]
      dsimp only
      rw [hname]
      simp
  · next hshape => exact absurd rfl (hshape c [])

end Yeah.Shell.Flags
