import Yeah.Browser.Paths
import Yeah.Doubles
import Yeah.Sorting
import Yeah.Text.Lines
import Mathlib.Algebra.Order.Group.Nat

namespace Yeah.Browser

open Text Doubles

inductive BrowserKind where
  | dir
  | file
  | link
  | other
  deriving DecidableEq

structure BrowserEntry where
  name : List Char
  kind : BrowserKind
  size : Option Nat
  mode : List Char
  deriving DecidableEq

/-- `\s` -/
def blank (c : Char) : Bool := isSpace c.toNat

def words (t : List Char) : List (List Char) := (t.splitOnP blank).filter (· ≠ [])

/-- `line.trim().split(/\s+/)` -/
def tokens (line : List Char) : List (List Char) := if strip blank line = [] then [[]] else words line

/-- The text behind the n-th token, to which `nthTokenEnd` is the index. -/
def afterToken : Nat → List Char → Option (List Char)
  | 0, line => some line
  | n + 1, line =>
      if line.dropWhile blank = [] then none
      else afterToken n ((line.dropWhile blank).dropWhile fun c => !blank c)

/-- `^[-dlbcps][-rwxsStT]{9}[.+@]?$` -/
def isMode : List Char → Bool
  | [] => false
  | c :: t =>
      "-dlbcps".toList.contains c && (t.take 9).length = 9 && (t.take 9).all "-rwxsStT".toList.contains &&
        (t.drop 9 = [] || t.drop 9 = ['.'] || t.drop 9 = ['+'] || t.drop 9 = ['@'])

def arrow : List Char := " -> ".toList

def beforeArrow : List Char → Option (List Char)
  | [] => none
  | c :: t => if arrow <+: c :: t then some [] else (beforeArrow t).map (c :: ·)

def trimSlash (name : List Char) : List Char := if name.getLast? = some '/' then name.dropLast else name

/-- `Number(token)`, where it is finite: the token is made of digits, or is the major number of a device and a comma. -/
def tokenNumber (token : List Char) : Option Nat :=
  if token ≠ [] ∧ token.all Char.isDigit = true ∧
    ofDigits token < 2 ^ 1024 then some (ofDigits token) else none

def modeKind (mode : List Char) : BrowserKind :=
  match mode.head? with
  | some 'd' => .dir
  | some 'l' => .link
  | some '-' => .file
  | _ => .other

def listedName (line mode : List Char) : List Char :=
  let name := match afterToken 8 line with
    | some rest => strip blank rest
    | none => [' '].intercalate ((tokens line).drop 8)
  trimSlash (if modeKind mode = .link then (beforeArrow name).getD name else name)

def parseLine (line : List Char) : Option BrowserEntry :=
  match tokens line with
  | mode :: rest =>
      if rest.length < 8 ∨ isMode mode = false then none
      else
        let name := listedName line mode
        if name = [] ∨ name = ['.'] ∨ name = ['.', '.'] then none
        else
          let size := if modeKind mode = .dir then none else (rest[3]?).bind tokenNumber
          some ⟨name, modeKind mode, size, mode⟩
  | [] => none

def rank (e : BrowserEntry) : Nat := if e.kind = .dir then 0 else 1

/-- Directories first, then by name as the locale compares. -/
def parseListing (localeCompare : List Char → List Char → Ordering) (output : List Char) :
    List BrowserEntry :=
  Sorting.sort (Sorting.orElse (Sorting.comparing compare rank) (Sorting.comparing localeCompare BrowserEntry.name))
    ((lines output).filterMap parseLine)

/-! ### What `ls -lAp` writes -/

structure Word where
  text : List Char
  nonempty : text ≠ []
  solid : ∀ c ∈ text, blank c = false

/-- A number in decimal digits. -/
structure Numeral where
  text : List Char
  nonempty : text ≠ []
  digits : text.all Char.isDigit = true

def Numeral.value (n : Numeral) : Nat := written n.text

/-- The name of an entry; `.` and `..` are not listed. -/
structure EntryName where
  text : List Char
  segment : Segment text
  printable : ∀ c ∈ text, isControl c = false

/-- What stands behind the arrow of a link, with the slash that is put behind a directory. -/
structure Target where
  text : List Char
  nonempty : text ≠ []
  printable : ∀ c ∈ text, isControl c = false

inductive Node where
  | directory (size : Numeral)
  | file (size : Numeral)
  | link (size : Numeral) (target : Target)
  | pipe (size : Numeral)
  | socket (size : Numeral)
  | charDevice (major minor : Numeral)
  | blockDevice (major minor : Numeral)

namespace Node

def letter : Node → Char
  | directory _ => 'd'
  | file _ => '-'
  | link _ _ => 'l'
  | pipe _ => 'p'
  | socket _ => 's'
  | charDevice _ _ => 'c'
  | blockDevice _ _ => 'b'

def kind : Node → BrowserKind
  | directory _ => .dir
  | file _ => .file
  | link _ _ => .link
  | pipe _ | socket _ | charDevice _ _ | blockDevice _ _ => .other

def numbers : Node → List (List Char)
  | directory n | file n | link n _ | pipe n | socket n => [n.text]
  | charDevice major minor | blockDevice major minor => [major.text ++ [','], minor.text]

def suffix : Node → List Char
  | directory _ => ['/']
  | link _ target => arrow ++ target.text
  | _ => []

def size : Node → Option Nat
  | file n => some n.value
  | _ => none

end Node

/-- A line of the listing: an entry of the directory, and how wide the gaps between its columns are. -/
structure DirEntry where
  name : EntryName
  node : Node
  permissions : List Char
  nine : permissions.length = 9
  allowed : permissions.all "-rwxsStT".toList.contains = true
  mark : List Char
  marked : mark = [] ∨ mark = ['.'] ∨ mark = ['+'] ∨ mark = ['@']
  links : Word
  owner : Word
  group : Word
  month : Word
  day : Word
  time : Word
  clock : '/' ∉ time.text
  gaps : Nat → Nat

def layout (gaps : Nat → Nat) : Nat → List (List Char) → List Char
  | _, [] => []
  | i, w :: ws => List.replicate (gaps i + 1) ' ' ++ (w ++ layout gaps (i + 1) ws)

namespace DirEntry

variable (e : DirEntry)

def mode : List Char := e.node.letter :: (e.permissions ++ e.mark)

def columns : List (List Char) :=
  [e.links.text, e.owner.text, e.group.text] ++
    (e.node.numbers ++ [e.month.text, e.day.text, e.time.text])

def line : List Char := e.mode ++ (layout e.gaps 0 e.columns ++ ' ' :: (e.name.text ++ e.node.suffix))

/-- What the listing says of the entry: its name, its kind and, for a file, its size. -/
def own : List Char × BrowserKind × Option Nat := (e.name.text, e.node.kind, e.node.size)

end DirEntry

/-- No two entries of a directory have one name. -/
structure Directory where
  entries : List DirEntry
  distinct : (entries.map fun e => e.name.text).Nodup

def lsOutput (total : Numeral) (d : Directory) : List Char :=
  (("total".toList ++ ' ' :: total.text) :: d.entries.map DirEntry.line).flatMap (· ++ ['\n'])

def BrowserEntry.seen (b : BrowserEntry) : List Char × BrowserKind × Option Nat :=
  (b.name, b.kind, if b.kind = .file then b.size else none)

section Words

variable {w rest t : List Char} {c : Char} {gaps : Nat → Nat} {i : Nat} {ws : List (List Char)}

theorem blank_space : blank ' ' = true := by decide

theorem words_cons_blank (h : blank c = true) (t : List Char) : words (c :: t) = words t := by
  have hsplit : ([] ++ c :: t).splitOnP blank = [] :: t.splitOnP blank :=
    List.splitOnP_append_cons_of_forall_mem (by simp) c h t
  rw [List.nil_append] at hsplit
  rw [words, hsplit, List.filter_cons_of_neg (by simp), ← words]

theorem words_append_word (hne : w ≠ []) (hw : ∀ c ∈ w, blank c = false) (h : blank c = true)
    (t : List Char) :
    words (w ++ c :: t) = w :: words (c :: t) := by
  have hsplit := List.splitOnP_append_cons_of_forall_mem hw c h t
  rw [words, hsplit, List.filter_cons_of_pos (by simpa using hne), ← words, words_cons_blank h]

theorem words_spaces (n : Nat) (t : List Char) : words (List.replicate n ' ' ++ t) = words t := by
  induction n with
  | zero => rfl
  | succ n ih => rw [List.replicate_succ, List.cons_append, words_cons_blank blank_space, ih]

theorem layout_cons (gaps : Nat → Nat) (i : Nat) (ws : List (List Char)) (t : List Char) :
    ∃ u, layout gaps i ws ++ ' ' :: t = ' ' :: u := by
  cases ws with
  | nil => exact ⟨t, rfl⟩
  | cons w ws => exact ⟨_, rfl⟩

theorem words_layout (hne : ∀ w ∈ ws, w ≠ []) (hws : ∀ w ∈ ws, ∀ c ∈ w, blank c = false) (i : Nat)
    (t : List Char) :
    words (layout gaps i ws ++ ' ' :: t) = ws ++ words t := by
  induction ws generalizing i with
  | nil => exact words_cons_blank blank_space t
  | cons w ws ih =>
      obtain ⟨u, hu⟩ := layout_cons gaps (i + 1) ws t
      have hrest :=
        ih (fun v hv => hne v (List.mem_cons_of_mem _ hv)) (fun v hv => hws v (List.mem_cons_of_mem _ hv))
        (i + 1)
      rw [hu] at hrest
      rw [layout, List.append_assoc, words_spaces, List.append_assoc, hu,
        words_append_word (hne w List.mem_cons_self) (hws w List.mem_cons_self) blank_space, hrest]
      rfl

theorem layout_append (gaps : Nat → Nat) (i : Nat) (us ws : List (List Char)) :
    layout gaps i (us ++ ws) = layout gaps i us ++ layout gaps (i + us.length) ws := by
  induction us generalizing i with
  | nil => rfl
  | cons u us ih =>
      rw [List.cons_append, layout, layout, ih, List.length_cons, List.append_assoc, List.append_assoc]
      congr 4
      omega

theorem afterToken_word (hne : w ≠ []) (hw : ∀ c ∈ w, blank c = false) (n k : Nat) (t : List Char) :
    afterToken (k + 1) (List.replicate n ' ' ++ (w ++ ' ' :: t)) = afterToken k (' ' :: t) := by
  have hhead : ∀ c ∈ (w ++ ' ' :: t).head?, blank c = false := by
    intro c hc
    cases w with
    | nil => exact absurd rfl hne
    | cons a w => exact hw c (by cases hc; exact List.mem_cons_self)
  have hspaces : (List.replicate n ' ' ++ (w ++ ' ' :: t)).dropWhile blank = w ++ ' ' :: t :=
    dropWhile_span (fun c hc => by rw [(List.mem_replicate.1 hc).2]; exact blank_space) hhead
  have hword : (w ++ ' ' :: t).dropWhile (fun c => !blank c) = ' ' :: t :=
    dropWhile_span (fun c hc => by simp [hw c hc]) (fun c hc => by cases hc; decide)
  rw [afterToken, hspaces, if_neg (by simp), hword]

theorem afterToken_layout (hne : ∀ w ∈ ws, w ≠ []) (hws : ∀ w ∈ ws, ∀ c ∈ w, blank c = false) (i : Nat)
    (t : List Char) :
    afterToken ws.length (layout gaps i ws ++ ' ' :: t) = some (' ' :: t) := by
  induction ws generalizing i with
  | nil => rfl
  | cons w ws ih =>
      obtain ⟨u, hu⟩ := layout_cons gaps (i + 1) ws t
      have hrest :=
        ih (fun v hv => hne v (List.mem_cons_of_mem _ hv)) (fun v hv => hws v (List.mem_cons_of_mem _ hv))
        (i + 1)
      rw [hu] at hrest
      rw [layout, List.append_assoc, List.append_assoc, hu, List.length_cons,
        afterToken_word (hne w List.mem_cons_self) (hws w List.mem_cons_self), hrest]

theorem blank_of_words (h : words t = []) : ∀ c ∈ t, blank c = true := by
  induction t with
  | nil => exact fun c hc => by cases hc
  | cons a t ih =>
      by_cases ha : blank a = true
      · rw [words_cons_blank ha] at h
        exact List.forall_mem_cons.2 ⟨ha, ih h⟩
      · obtain ⟨u, us, hu⟩ := List.exists_cons_of_ne_nil (List.splitOnP_ne_nil blank t)
        rw [words, List.splitOnP_cons_eq_if_modifyHead, if_neg ha, hu, List.modifyHead_cons,
          List.filter_cons_of_pos (by simp)] at h
        cases h

end Words

section Entry

variable (e : DirEntry)

theorem blank_digit {c : Char} (h : c.isDigit = true) : blank c = false := by
  rw [Char.isDigit, Bool.and_eq_true, decide_eq_true_eq, decide_eq_true_eq] at h
  have h1 : 48 ≤ c.toNat := h.1
  have h2 : c.toNat ≤ 57 := h.2
  exact isSpace_of_range ⟨by omega, by omega⟩

theorem Numeral.solid (n : Numeral) : ∀ c ∈ n.text, blank c = false :=
  fun c hc => blank_digit (List.all_eq_true.1 n.digits c hc)

theorem numbers_word {w : List Char} (h : w ∈ e.node.numbers) : w ≠ [] ∧ ∀ c ∈ w, blank c = false := by
  have hmajor : ∀ major : Numeral, (major.text ++ [',']) ≠ [] ∧
    ∀ c ∈ major.text ++ [','], blank c = false := by
    intro major
    refine ⟨by simp, fun c hc => ?_⟩
    rcases List.mem_append.1 hc with hc | hc
    · exact major.solid c hc
    · rw [List.mem_singleton.1 hc]
      decide
  cases hnode : e.node <;> rw [hnode] at h
  case charDevice major minor | blockDevice major minor =>
    rcases List.mem_cons.1 h with rfl | h
    · exact hmajor major
    · rw [List.mem_singleton.1 h]
      exact ⟨minor.nonempty, minor.solid⟩
  all_goals
    rw [List.mem_singleton.1 h]
    exact ⟨Numeral.nonempty _, Numeral.solid _⟩

theorem columns_word {w : List Char} (h : w ∈ e.columns) : w ≠ [] ∧ ∀ c ∈ w, blank c = false := by
  have hword : ∀ v : Word, v.text ≠ [] ∧ ∀ c ∈ v.text, blank c = false := fun v => ⟨v.nonempty, v.solid⟩
  rcases List.mem_append.1 h with h | h
  · simp only [List.mem_cons, List.not_mem_nil, or_false] at h
    rcases h with rfl | rfl | rfl
    · exact hword _
    · exact hword _
    · exact hword _
  · rcases List.mem_append.1 h with h | h
    · exact numbers_word e h
    · simp only [List.mem_cons, List.not_mem_nil, or_false] at h
      rcases h with rfl | rfl | rfl
      · exact hword _
      · exact hword _
      · exact hword _

theorem permission_solid {c : Char} (h : "-rwxsStT".toList.contains c = true) : blank c = false := by
  have hall : ∀ d ∈ "-rwxsStT".toList, blank d = false := List.all_iff_forall_prop.1 (by decide)
  exact hall c (by simpa using h)

theorem mode_solid : ∀ c ∈ e.mode, blank c = false := by
  intro c hc
  rcases List.mem_cons.1 hc with rfl | hc
  · cases e.node <;> rfl
  · rcases List.mem_append.1 hc with hc | hc
    · exact permission_solid (List.all_eq_true.1 e.allowed c hc)
    · rcases e.marked with h | h | h | h <;> rw [h] at hc
      · cases hc
      all_goals
        rw [List.mem_singleton.1 hc]
        decide

theorem isMode_mode : isMode e.mode = true := by
  have hletter : "-dlbcps".toList.contains e.node.letter = true := by cases e.node <;> rfl
  have htake : (e.permissions ++ e.mark).take 9 = e.permissions := List.take_left' e.nine
  have hdrop : (e.permissions ++ e.mark).drop 9 = e.mark := List.drop_left' e.nine
  rw [DirEntry.mode, isMode, htake, hdrop, hletter, e.allowed, e.nine]
  rcases e.marked with h | h | h | h <;> rw [h] <;> decide

theorem modeKind_mode : modeKind e.mode = e.node.kind := by
  rw [DirEntry.mode]
  cases e.node <;> rfl

theorem mode_ne_nil : e.mode ≠ [] := List.cons_ne_nil _ _

theorem tokens_line : tokens e.line = e.mode :: (e.columns ++ words (e.name.text ++ e.node.suffix)) := by
  obtain ⟨u, hu⟩ := layout_cons e.gaps 0 e.columns (e.name.text ++ e.node.suffix)
  have hwords : words e.line = e.mode :: (e.columns ++ words (e.name.text ++ e.node.suffix)) := by
    have hcolumns : words (layout e.gaps 0 e.columns ++ ' ' :: (e.name.text ++ e.node.suffix)) =
        e.columns ++ words (e.name.text ++ e.node.suffix) :=
      words_layout (fun w hw => (columns_word e hw).1) (fun w hw => (columns_word e hw).2) 0 _
    rw [hu] at hcolumns
    rw [DirEntry.line, hu, words_append_word (mode_ne_nil e) (mode_solid e) blank_space, hcolumns]
  have hne : strip blank e.line ≠ [] :=
    strip_ne_nil_iff.2 ⟨e.node.letter, by simp [DirEntry.line, DirEntry.mode],
      mode_solid e _ List.mem_cons_self⟩
  rw [tokens, if_neg hne, hwords]

theorem length_columns : 7 ≤ e.columns.length := by
  rw [DirEntry.columns]
  cases e.node <;> exact Nat.le_of_ble_eq_true rfl

def DirEntry.behind : List Char :=
  layout e.gaps 7 (e.columns.drop 7) ++ ' ' :: (e.name.text ++ e.node.suffix)

theorem afterToken_line : afterToken 8 e.line = some e.behind := by
  obtain ⟨u, hu⟩ := layout_cons e.gaps 0 e.columns (e.name.text ++ e.node.suffix)
  obtain ⟨v, hv⟩ := layout_cons e.gaps 7 (e.columns.drop 7) (e.name.text ++ e.node.suffix)
  have hmode : afterToken 8 e.line = afterToken 7 (' ' :: u) := by
    have hword := afterToken_word (mode_ne_nil e) (mode_solid e) 0 7 u
    rw [List.replicate_zero, List.nil_append] at hword
    rw [DirEntry.line, hu, hword]
  have hlength : (e.columns.take 7).length = 7 := List.length_take_of_le (length_columns e)
  have hsplit : layout e.gaps 0 e.columns ++ ' ' :: (e.name.text ++ e.node.suffix) =
      layout e.gaps 0 (e.columns.take 7) ++ e.behind := by
    conv_lhs => rw [← List.take_append_drop 7 e.columns]
    rw [layout_append, hlength, Nat.zero_add, List.append_assoc, ← DirEntry.behind]
  have hcolumns : ∀ w ∈ e.columns.take 7, w ≠ [] ∧ ∀ c ∈ w, blank c = false :=
    fun w hw => columns_word e (List.mem_of_mem_take hw)
  have hskip : afterToken (e.columns.take 7).length (layout e.gaps 0 (e.columns.take 7) ++ ' ' :: v) = some (' ' :: v) :=
    afterToken_layout (fun w hw => (hcolumns w hw).1) (fun w hw => (hcolumns w hw).2) 0 v
  rw [hlength] at hskip
  rw [hmode, ← hu, hsplit, DirEntry.behind, hv, hskip]

def DirEntry.readName : List Char :=
  trimSlash (if e.node.kind = .link then (beforeArrow (strip blank e.behind)).getD (strip blank e.behind)
    else strip blank e.behind)

def DirEntry.readSize : Option Nat :=
  if e.node.kind = .dir then none else e.node.numbers.head?.bind tokenNumber

theorem listedName_line : listedName e.line e.mode = e.readName := by
  rw [listedName, afterToken_line, modeKind_mode]
  rfl

theorem columns_size (ws : List (List Char)) : (e.columns ++ ws)[3]? = e.node.numbers.head? := by
  rw [DirEntry.columns]
  cases e.node <;> rfl

theorem parseLine_line : parseLine e.line =
    if e.readName = [] ∨ e.readName = ['.'] ∨ e.readName = ['.', '.'] then none
    else some ⟨e.readName, e.node.kind, e.readSize, e.mode⟩ := by
  rw [parseLine, tokens_line]
  simp only [listedName_line, isMode_mode, modeKind_mode, columns_size, Bool.true_eq_false, or_false]
  split
  · next hshort =>
      have hwords : words (e.name.text ++ e.node.suffix) = [] ∧ e.columns.length = 7 := by
        have := length_columns e
        rw [List.length_append] at hshort
        exact ⟨List.eq_nil_of_length_eq_zero (by omega), by omega⟩
      have hblank : ∀ c ∈ e.behind, blank c = true := by
        rw [DirEntry.behind, List.drop_eq_nil_of_le (Nat.le_of_eq hwords.2)]
        exact List.forall_mem_cons.2 ⟨blank_space, blank_of_words hwords.1⟩
      have hstrip : strip blank e.behind = [] := by
        have hnil := strip_append_right hblank []
        rwa [List.nil_append] at hnil
      have hname : e.readName = [] := by simp [DirEntry.readName, hstrip, beforeArrow, trimSlash]
      rw [if_pos (Or.inl hname)]
  · rfl

theorem no_break_of_solid {c : Char} (h : blank c = false) : c ≠ '\n' ∧ c ≠ '\r' := by
  constructor
  · rintro rfl
    cases h
  · rintro rfl
    cases h

theorem no_break_of_printable {c : Char} (h : isControl c = false) : c ≠ '\n' ∧ c ≠ '\r' := by
  constructor
  · rintro rfl
    cases h
  · rintro rfl
    cases h

theorem line_printable : ∀ c ∈ e.line, c ≠ '\n' ∧ c ≠ '\r' := by
  have hlayout : ∀ i, ∀ ws : List (List Char), (∀ w ∈ ws, ∀ c ∈ w, blank c = false) →
      ∀ c ∈ layout e.gaps i ws, c ≠ '\n' ∧ c ≠ '\r' := by
    intro i ws
    induction ws generalizing i with
    | nil => exact fun _ c hc => by cases hc
    | cons w ws ih =>
        intro hws c hc
        rcases List.mem_append.1 hc with hc | hc
        · rw [(List.mem_replicate.1 hc).2]
          decide
        · rcases List.mem_append.1 hc with hc | hc
          · exact no_break_of_solid (hws w List.mem_cons_self c hc)
          · exact ih _ (fun v hv => hws v (List.mem_cons_of_mem _ hv)) c hc
  have hsuffix : ∀ c ∈ e.node.suffix, c ≠ '\n' ∧ c ≠ '\r' := by
    intro c hc
    cases hnode : e.node <;> rw [hnode] at hc
    case directory =>
      rw [List.mem_singleton.1 hc]
      decide
    case link size target =>
      rcases List.mem_append.1 hc with hc | hc
      · have harrow : ∀ c ∈ arrow, c ≠ '\n' ∧ c ≠ '\r' := List.all_iff_forall_prop.1 (by decide)
        exact harrow c hc
      · exact no_break_of_printable (target.printable c hc)
    all_goals cases hc
  intro c hc
  rcases List.mem_append.1 hc with hc | hc
  · exact no_break_of_solid (mode_solid e c hc)
  · rcases List.mem_append.1 hc with hc | hc
    · exact hlayout 0 e.columns (fun w hw => (columns_word e hw).2) c hc
    · rcases List.mem_cons.1 hc with rfl | hc
      · decide
      · rcases List.mem_append.1 hc with hc | hc
        · exact no_break_of_printable (e.name.printable c hc)
        · exact hsuffix c hc

end Entry

section Output

/-- The line with the total is no entry, nor is the end of the text. -/
theorem parseLine_total (total : Numeral) : parseLine ("total".toList ++ ' ' :: total.text) = none := by
  have hword : ∀ c ∈ "total".toList, blank c = false := List.all_iff_forall_prop.1 (by decide)
  have hwords : words ("total".toList ++ ' ' :: total.text) = ["total".toList, total.text] := by
    rw [words_append_word (by decide) hword blank_space, words_cons_blank blank_space, words,
      List.splitOnP_eq_singleton total.solid, List.filter_cons_of_pos (by simpa using total.nonempty)]
    rfl
  have hne : strip blank ("total".toList ++ ' ' :: total.text) ≠ [] :=
    strip_ne_nil_iff.2 ⟨'t', by simp, by decide⟩
  rw [parseLine, tokens, if_neg hne, hwords]
  exact if_pos (Or.inl (Nat.le_of_ble_eq_true rfl))

theorem lines_lsOutput (total : Numeral) (d : Directory) : lines (lsOutput total d) =
    ("total".toList ++ ' ' :: total.text) :: d.entries.map DirEntry.line ++ [[]] := by
  refine lines_flatMap fun line hline => ?_
  have hall : ∀ c ∈ line, c ≠ '\n' ∧ c ≠ '\r' := by
    rcases List.mem_cons.1 hline with rfl | hline
    · intro c hc
      rcases List.mem_append.1 hc with hc | hc
      · have htotal : ∀ c ∈ "total".toList, c ≠ '\n' ∧ c ≠ '\r' := List.all_iff_forall_prop.1 (by decide)
        exact htotal c hc
      · rcases List.mem_cons.1 hc with rfl | hc
        · decide
        · exact no_break_of_solid (total.solid c hc)
    · obtain ⟨e, -, rfl⟩ := List.mem_map.1 hline
      exact line_printable e
  exact ⟨fun h => (hall _ h).1 rfl, fun h => (hall _ h).2 rfl⟩

theorem parseListing_perm (localeCompare : List Char → List Char → Ordering) (total : Numeral)
    (d : Directory) :
    (parseListing localeCompare (lsOutput total d)).Perm (d.entries.filterMap fun e => parseLine e.line) := by
  have hempty : parseLine [] = none := by decide
  refine (List.mergeSort_perm _ _).trans (List.Perm.of_eq ?_)
  rw [lines_lsOutput, List.cons_append, List.filterMap_cons_none (parseLine_total total), List.filterMap_append,
    List.filterMap_cons_none hempty, List.filterMap_nil, List.append_nil, List.filterMap_map]
  rfl

end Output

end Yeah.Browser
