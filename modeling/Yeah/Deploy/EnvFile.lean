import Yeah.Deploy.Application
import Yeah.Text.Lines
import Yeah.Text.Replace
import Yeah.Text.Space
import Mathlib.Data.List.Nodup

namespace Yeah.Deploy

open Text

/-- `[A-Za-z_][A-Za-z0-9_]*` -/
def isKeyChar (c : Char) : Bool := c.isAlphanum || c = '_'

def isKey (key : List Char) : Bool := key.head?.any (fun c => c.isAlpha || c = '_') && key.all isKeyChar

/-- What `.` does not match. -/
def isLineTerminator (c : Char) : Bool :=
  c.toNat = 0x0A || c.toNat = 0x0D || c.toNat = 0x2028 || c.toNat = 0x2029

def readAvailability (line : List Char) : Availability × List Char :=
  if "build:".toList <+: line then (.build, line.drop 6)
  else if "both:".toList <+: line then (.both, line.drop 5)
  else (.runtime, line)

/-- `^(?:(build|both):)?([A-Za-z_][A-Za-z0-9_]*)=(.*)$` -/
def readLine (line : List Char) : Option EnvEntry :=
  let (availability, text) := readAvailability line
  let key := text.takeWhile isKeyChar
  match text.dropWhile isKeyChar with
  | '=' :: value =>
      if isKey key && value.all (fun c => !isLineTerminator c) then some ⟨String.ofList key, String.ofList value, availability⟩ else none
  | _ => none

/-- A carriage return before a line feed goes with `trim`. -/
def parseEnvContent (content : String) : List EnvEntry :=
  (content.toList.splitOn '\n').filterMap fun raw =>
    let line := strip (fun c => isSpace c.toNat) raw
    if line = [] || line.head? = some '#' then none else readLine line

def scopes : List String := ["team", "project", "environment"]

/-- A value between references. -/
inductive Piece
  | text (c : Char)
  | reference (scope name : String)

/-- A reference at the start of a text, and its length. -/
def matchReference (text : List Char) : Option (String × String × Nat) :=
  if "\x7b\x7b".toList <+: text then
    let inner := (text.drop 2).dropWhile fun c => isSpace c.toNat
    match scopes.find? fun scope => (scope ++ ".").toList <+: inner with
    | some scope =>
        let rest := inner.drop (scope.length + 1)
        let name := rest.takeWhile isKeyChar
        let close := (rest.dropWhile isKeyChar).dropWhile fun c => isSpace c.toNat
        if isKey name && "\x7d\x7d".toList <+: close then some (scope, String.ofList name, text.length - (close.length - 2)) else none
    | none => none
  else none

/-- The first `k` characters belong to a reference before. -/
def scan : Nat → List Char → List Piece
  | _, [] => []
  | k + 1, _ :: cs => scan k cs
  | 0, c :: cs =>
      match matchReference (c :: cs) with
      | some (scope, name, length) => .reference scope name :: scan (length - 1) cs
      | none => .text c :: scan 0 cs

def lookup (shared : List SharedVariable) (scope name : String) : Option String :=
  (shared.reverse.find? fun v => v.scope = scope && v.key = name).map SharedVariable.value

def Piece.expand (shared : List SharedVariable) : Piece → List Char
  | .text c => [c]
  | .reference scope name => ((lookup shared scope name).getD "").toList

def Piece.missing (shared : List SharedVariable) : Piece → Option String
  | .text _ => none
  | .reference scope name => if (lookup shared scope name).isNone then some (scope ++ "." ++ name) else none

def expandValue (shared : List SharedVariable) (value : String) : String :=
  String.ofList ((scan 0 value.toList).flatMap (Piece.expand shared))

def expandReferences (entries : List EnvEntry) (shared : List SharedVariable) :
    List EnvEntry × List String :=
  (entries.map fun e => { e with value := expandValue shared e.value },
    (entries.flatMap fun e => (scan 0 e.value.toList).filterMap (Piece.missing shared)).eraseDups)

def runtimeEntries (entries : List EnvEntry) : List EnvEntry :=
  entries.filter fun e => e.availability ≠ .build

/-- The contents of the container's env file: runtime + both. -/
def renderRuntimeEnv (entries : List EnvEntry) : String :=
  let lines := (runtimeEntries entries).map fun e => e.key ++ "=" ++ e.value
  if lines.length > 0 then "\n".intercalate lines ++ "\n" else ""

/-- The file that a deployment writes, unless a variable is missing. -/
def runtimeEnvFile (content : String) (shared : List SharedVariable) : Except String String :=
  let expanded := expandReferences (parseEnvContent content) shared
  if expanded.2 ≠ [] then .error ("shared variable not found: " ++ ", ".intercalate (expanded.2.map fun m => "\x7b\x7b" ++ m ++ "\x7d\x7d"))
  else .ok (renderRuntimeEnv expanded.1)

section Docker

/-- The lines that docker's scanner gives: cut at line feeds, the last one only if it is not empty. -/
def fileLines (file : List Char) : List (List Char) :=
  let lines := file.splitOn '\n'
  if lines.getLast? = some [] then lines.dropLast else lines

/-- A line with its line feed must fit into the scanner's buffer. -/
def maxLineBytes : Nat := 64 * 1024 - 1

def bytes (line : List Char) : Nat := (line.map Char.utf8Size).sum

/-- Go's `unicode.IsSpace`. -/
def isGoSpace (c : Char) : Bool := (isSpace c.toNat || c.toNat = 0x85) && c.toNat ≠ 0xFEFF

def isBlank (c : Char) : Bool := c = ' ' || c = '\t'

inductive FileLine
  | nothing
  | define (key value : List Char)
  | bad

/-- One line; a variable without a value is passed on from the environment of the client. -/
def readFileLine (environment : List Char → Option (List Char)) (raw : List Char) : FileLine :=
  let line := raw.dropWhile isGoSpace
  if line = [] || line.head? = some '#' then .nothing
  else
    let key := (line.takeWhile (· ≠ '=')).dropWhile isBlank
    if key = [] || key.any isBlank then .bad
    else match line.dropWhile (· ≠ '=') with
      | _ :: value => .define key value
      | [] =>
          match environment line with
          | some value => .define (strip isGoSpace key) value
          | none => .nothing

/-- `none` if docker refuses the file. -/
def readFileLines (environment : List Char → Option (List Char)) :
    List (List Char) → Option (List (List Char × List Char))
  | [] => some []
  | raw :: rest =>
      if bytes raw > maxLineBytes then none
      else match readFileLine environment (dropReturn raw), readFileLines environment rest with
        | .bad, _ | _, none => none
        | .nothing, some defs => some defs
        | .define key value, some defs => some ((key, value) :: defs)

def dropMark : List (List Char) → List (List Char)
  | line :: rest => (if line.head? = some (Char.ofNat 0xFEFF) then line.drop 1 else line) :: rest
  | [] => []

/-- What `docker run --env-file` defines, in order. -/
def readEnvFile (environment : List Char → Option (List Char)) (file : String) :
    Option (List (List Char × List Char)) :=
  readFileLines environment (dropMark (fileLines file.toList))

end Docker

def lineOf (e : EnvEntry) : List Char := e.key.toList ++ '=' :: e.value.toList

def definitions (entries : List EnvEntry) : List (List Char × List Char) :=
  entries.map fun e => (e.key.toList, e.value.toList)

/-- The last definition of a key wins. -/
def defined (defs : List (List Char × List Char)) (key : List Char) : Option (List Char) :=
  (defs.reverse.find? fun d => d.1 = key).map Prod.snd

section Parse

variable {shared : List SharedVariable} {content : String} {e : EnvEntry}

theorem readLine_eq_some {line : List Char} (h : readLine line = some e) :
    isKey e.key.toList ∧ ∀ c ∈ e.value.toList, isLineTerminator c = false := by
  rw [readLine] at h
  dsimp only at h
  split at h
  · next value hvalue =>
    split at h
    · next hc =>
      obtain ⟨hkey, hall⟩ := Bool.and_eq_true_iff.1 hc
      rw [← Option.some_inj.1 h]
      dsimp only
      rw [String.toList_ofList, String.toList_ofList]
      exact ⟨hkey, fun c hmem => by simpa using List.all_eq_true.1 hall c hmem⟩
    · cases h
  · cases h

theorem of_mem_parseEnvContent (h : e ∈ parseEnvContent content) :
    isKey e.key.toList ∧ ∀ c ∈ e.value.toList, isLineTerminator c = false := by
  obtain ⟨raw, -, hraw⟩ := List.mem_filterMap.1 h
  dsimp only at hraw
  split at hraw
  · cases hraw
  · exact readLine_eq_some hraw

theorem mem_of_text_scan {k : Nat} {cs : List Char} {c : Char} (h : Piece.text c ∈ scan k cs) :
    c ∈ cs := by
  induction cs generalizing k with
  | nil =>
      cases k <;> cases h
  | cons d cs ih =>
      cases k with
      | succ k => exact List.mem_cons_of_mem _ (ih h)
      | zero =>
          rw [scan] at h
          split at h
          · rcases List.mem_cons.1 h with he | h
            · cases he
            · exact List.mem_cons_of_mem _ (ih h)
          · rcases List.mem_cons.1 h with he | h
            · cases he
              exact List.mem_cons_self
            · exact List.mem_cons_of_mem _ (ih h)

/-- A line feed in an expanded value is one of a shared variable. -/
theorem feed_mem_expandValue_iff (h : ∀ c ∈ e.value.toList, isLineTerminator c = false) :
    '\n' ∈ (expandValue shared e.value).toList ↔
      ∃ scope name, Piece.reference scope name ∈ scan 0 e.value.toList ∧
        '\n' ∈ ((lookup shared scope name).getD "").toList := by
  rw [expandValue, String.toList_ofList, List.mem_flatMap]
  constructor
  · rintro ⟨piece, hpiece, hmem⟩
    cases piece with
    | text c =>
        rw [Piece.expand, List.mem_singleton] at hmem
        have hterminator := h _ (mem_of_text_scan hpiece)
        rw [← hmem] at hterminator
        cases hterminator
    | reference scope name => exact ⟨scope, name, hpiece, hmem⟩
  · rintro ⟨scope, name, hpiece, hmem⟩
    exact ⟨_, hpiece, hmem⟩

end Parse

section Render

theorem intercalate_append (sep line : List Char) (lines : List (List Char)) :
    sep.intercalate (line :: lines) ++ sep = (line :: lines).flatMap (· ++ sep) := by
  induction lines generalizing line with
  | nil => simp
  | cons next lines ih => rw [List.intercalate_cons_cons, List.append_assoc, ih, List.flatMap_cons (x := line)]

theorem renderRuntimeEnv_toList (entries : List EnvEntry) :
    (renderRuntimeEnv entries).toList = ((runtimeEntries entries).map lineOf).flatMap (· ++ ['\n']) := by
  have hlines : ((runtimeEntries entries).map fun e => e.key ++ "=" ++ e.value).map String.toList =
      (runtimeEntries entries).map lineOf := by
    rw [List.map_map]
    refine List.map_congr_left fun e _ => ?_
    simp [lineOf]
  rw [renderRuntimeEnv, ← hlines]
  cases (runtimeEntries entries).map fun e => e.key ++ "=" ++ e.value with
  | nil => rfl
  | cons line lines =>
      have hpos : (line :: lines).length > 0 := Nat.succ_pos _
      rw [if_pos hpos, String.toList_append, String.toList_intercalate, List.map_cons]
      exact intercalate_append ['\n'] line.toList (lines.map String.toList)

theorem fileLines_lines (lines : List (List Char)) :
    fileLines (lines.flatMap (· ++ ['\n'])) = lines.flatMap (·.splitOn '\n') := by
  rw [fileLines, splitOn_lines]
  simp

theorem isKeyChar_of_mem {key : List Char} (h : isKey key) {c : Char} (hc : c ∈ key) : isKeyChar c :=
  List.all_eq_true.1 (Bool.and_eq_true_iff.1 h).2 c hc

theorem not_mem_key {key : List Char} (h : isKey key) {c : Char} (hc : isKeyChar c = false) : c ∉ key :=
  fun hmem =>
  Bool.false_ne_true (hc.symm.trans (isKeyChar_of_mem h hmem))

theorem key_ne_nil {key : List Char} (h : isKey key) : key ≠ [] := by
  rintro rfl
  cases h

theorem splitOn_lineOf {e : EnvEntry} (h : isKey e.key.toList) :
    ∃ first rest, (lineOf e).splitOn '\n' = (e.key.toList ++ '=' :: first) :: rest ∧ '\n' ∉ first ∧
      ('\n' ∉ e.value.toList → first = e.value.toList ∧ rest = []) := by
  have hkey : '\n' ∉ e.key.toList := not_mem_key h rfl
  by_cases hv : '\n' ∈ e.value.toList
  · obtain ⟨first, rest, hvalue, hfirst⟩ := List.eq_append_cons_of_mem hv
    refine ⟨first, rest.splitOn '\n', ?_, hfirst, fun hn => absurd hv hn⟩
    have hline : lineOf e = (e.key.toList ++ '=' :: first) ++ '\n' :: rest := by simp [lineOf, hvalue]
    rw [hline, List.splitOn_append_cons_self_of_not_mem]
    simp [hkey, hfirst]
  · refine ⟨e.value.toList, [], ?_, hv, fun _ => ⟨rfl, rfl⟩⟩
    rw [List.splitOn_eq_singleton, lineOf]
    simp [lineOf, hkey, hv]

theorem dropReturn_line (key value : List Char) :
    dropReturn (key ++ '=' :: value) = key ++ '=' :: dropReturn value := by
  rcases List.eq_nil_or_concat value with rfl | ⟨value, c, rfl⟩
  · simp [dropReturn]
  · have hline : key ++ '=' :: (value ++ [c]) = (key ++ '=' :: value) ++ [c] := by simp
    rw [List.concat_eq_append, dropReturn, dropReturn, hline, List.getLast?_concat, List.getLast?_concat,
      List.dropLast_concat, List.dropLast_concat]
    split_ifs <;> simp

theorem keyChar_range {c : Char} (h : isKeyChar c) : 48 ≤ c.toNat ∧ c.toNat ≤ 122 := by
  rw [isKeyChar, Bool.or_eq_true, decide_eq_true_eq] at h
  rcases h with h | rfl
  · have hrange := alphanum_range h
    omega
  · decide

theorem keyChar_plain {c : Char} (h : isKeyChar c) :
    isGoSpace c = false ∧ isBlank c = false ∧ c ≠ Char.ofNat 0xFEFF := by
  have hrange := keyChar_range h
  refine ⟨?_, ?_, ?_⟩
  · have hspace : isSpace c.toNat = false := isSpace_of_range (by omega)
    have hnext : c.toNat ≠ 0x85 := by omega
    simp [isGoSpace, hspace, hnext]
  · have hblank : c ≠ ' ' ∧ c ≠ '\t' := by
      constructor <;> rintro rfl <;> revert hrange <;> decide
    simp [isBlank, hblank]
  · rintro rfl
    revert hrange
    decide

theorem readFileLine_key (environment : List Char → Option (List Char)) {key : List Char} (h : isKey key)
    (value : List Char) :
    readFileLine environment (key ++ '=' :: value) = .define key value := by
  have hne : ∀ c ∈ key, decide (c ≠ '=') = true :=
    fun c hc => decide_eq_true fun he => not_mem_key h (by decide) (he ▸ hc)
  have hblank : key.any isBlank = false := by
    rw [List.any_eq_false]
    exact fun c hc => Bool.eq_false_iff.1 (keyChar_plain (isKeyChar_of_mem h hc)).2.1
  obtain ⟨c, cs, rfl⟩ := List.exists_cons_of_ne_nil (key_ne_nil h)
  have hc := isKeyChar_of_mem h (List.mem_cons_self (a := c) (l := cs))
  obtain ⟨hspace, hfirst, -⟩ := keyChar_plain hc
  have hhash : c ≠ '#' := by
    rintro rfl
    cases hc
  have hline : (c :: cs ++ '=' :: value).dropWhile isGoSpace = c :: cs ++ '=' :: value := by simp [hspace]
  have htake : (c :: cs ++ '=' :: value).takeWhile (· ≠ '=') = c :: cs := by
    rw [List.takeWhile_append_of_pos hne, List.takeWhile_cons_of_neg (by simp), List.append_nil]
  have hdrop : (c :: cs ++ '=' :: value).dropWhile (· ≠ '=') = '=' :: value := by
    rw [List.dropWhile_append_of_pos hne, List.dropWhile_cons_of_neg (by simp)]
  have hkey : (c :: cs).dropWhile isBlank = c :: cs := List.dropWhile_cons_of_neg (by simp [hfirst])
  rw [readFileLine, hline, htake, hdrop, hkey]
  simp [hhash, hblank]

variable {environment : List Char → Option (List Char)} {entries : List EnvEntry}

theorem dropMark_lines (h : ∀ e ∈ entries, isKey e.key.toList) :
    dropMark ((entries.map lineOf).flatMap (·.splitOn '\n')) = (entries.map lineOf).flatMap (·.splitOn '\n') := by
  cases entries with
  | nil => rfl
  | cons e entries =>
      have he := h e List.mem_cons_self
      obtain ⟨first, rest, hline, -⟩ := splitOn_lineOf he
      obtain ⟨c, cs, hkey⟩ := List.exists_cons_of_ne_nil (key_ne_nil he)
      have hc : isKeyChar c := isKeyChar_of_mem he (hkey ▸ List.mem_cons_self)
      rw [List.map_cons, List.flatMap_cons, hline, hkey]
      simp [dropMark, (keyChar_plain hc).2.2]

theorem readEnvFile_render (h : ∀ e ∈ runtimeEntries entries, isKey e.key.toList) :
    readEnvFile environment (renderRuntimeEnv entries) =
      readFileLines environment (((runtimeEntries entries).map lineOf).flatMap (·.splitOn '\n')) := by
  rw [readEnvFile, renderRuntimeEnv_toList, fileLines_lines, dropMark_lines h]

/-- A value is on one line, and is read as it is written. -/
structure Intact (e : EnvEntry) : Prop where
  feed : '\n' ∉ e.value.toList
  ending : e.value.toList.getLast? ≠ some '\r'
  short : bytes (lineOf e) ≤ maxLineBytes

theorem readFileLines_line {key : List Char} (h : isKey key) (value : List Char) (rest : List (List Char)) :
    readFileLines environment ((key ++ '=' :: value) :: rest) =
      if bytes (key ++ '=' :: value) > maxLineBytes then none
      else (readFileLines environment rest).map ((key, dropReturn value) :: ·) := by
  rw [readFileLines, dropReturn_line, readFileLine_key environment h]
  cases readFileLines environment rest <;> rfl

/-- The file is read back as it was meant exactly if every value stays on its line. -/
theorem readFileLines_iff (h : ∀ e ∈ entries, isKey e.key.toList) :
    readFileLines environment ((entries.map lineOf).flatMap (·.splitOn '\n')) = some (definitions entries) ↔
      ∀ e ∈ entries, Intact e := by
  induction entries with
  | nil => exact iff_of_true rfl fun e he => by cases he
  | cons e entries ih =>
      have he := h e List.mem_cons_self
      obtain ⟨first, rest, hline, hfirst, hvalue⟩ := splitOn_lineOf he
      rw [List.map_cons, List.flatMap_cons, hline, List.cons_append, readFileLines_line he, List.forall_mem_cons,
        ← ih fun e' he' => h e' (List.mem_cons_of_mem _ he')]
      constructor
      · intro hread
        split_ifs at hread with hlong
        obtain ⟨defs, hdefs, hcons⟩ := Option.map_eq_some_iff.1 hread
        obtain ⟨hhead, htail⟩ := List.cons.inj hcons
        have hdrop : dropReturn first = e.value.toList := congrArg Prod.snd hhead
        have hfeed : '\n' ∉ e.value.toList := by
          rw [← hdrop, dropReturn]
          split_ifs
          · exact fun hm => hfirst (List.mem_of_mem_dropLast hm)
          · exact hfirst
        obtain ⟨rfl, rfl⟩ := hvalue hfeed
        exact ⟨⟨hfeed, dropReturn_eq_self_iff.1 hdrop, Nat.le_of_not_lt hlong⟩,
          hdefs.trans (congrArg some htail)⟩
      · rintro ⟨hplain, hread⟩
        obtain ⟨rfl, rfl⟩ := hvalue hplain.feed
        have hshort : ¬ bytes (e.key.toList ++ '=' :: e.value.toList) > maxLineBytes :=
          Nat.not_lt.2 hplain.short
        rw [if_neg hshort, List.nil_append, hread, dropReturn_eq_self_iff.2 hplain.ending]
        rfl

theorem feed_not_mem_define (henvironment : ∀ line value, environment line = some value → '\n' ∉ value)
    {raw key value : List Char}
    (hraw : '\n' ∉ raw) (hread : readFileLine environment raw = .define key value) : '\n' ∉ value := by
  rw [readFileLine] at hread
  split_ifs at hread
  dsimp only at hread
  split_ifs at hread
  split at hread
  · next c rest hdrop =>
    cases hread
    intro hm
    have hmem : '\n' ∈ (raw.dropWhile isGoSpace).dropWhile (· ≠ '=') := hdrop ▸ List.mem_cons_of_mem _ hm
    exact hraw ((List.dropWhile_sublist _).mem ((List.dropWhile_sublist _).mem hmem))
  · split at hread
    · next passed hpassed =>
      cases hread
      exact henvironment _ _ hpassed
    · cases hread

theorem feed_not_mem_defs (henvironment : ∀ line value, environment line = some value → '\n' ∉ value)
    {lines : List (List Char)}
    (hlines : ∀ line ∈ lines, '\n' ∉ line) {defs : List (List Char × List Char)}
    (hread : readFileLines environment lines = some defs) :
    ∀ d ∈ defs, '\n' ∉ d.2 := by
  induction lines generalizing defs with
  | nil =>
      cases hread
      exact fun d hd => by cases hd
  | cons raw lines ih =>
      have hraw := hlines raw List.mem_cons_self
      rw [readFileLines] at hread
      split_ifs at hread
      split at hread
      · cases hread
      · cases hread
      · next rest hnothing hrest =>
        cases hread
        exact ih (fun line hl => hlines line (List.mem_cons_of_mem _ hl)) hrest
      · next key value rest hdefine hrest =>
        cases hread
        rw [List.forall_mem_cons]
        refine ⟨feed_not_mem_define henvironment ?_ hdefine,
          ih (fun line hl => hlines line (List.mem_cons_of_mem _ hl)) hrest⟩
        rw [dropReturn]
        split_ifs
        · exact fun hm => hraw (List.mem_of_mem_dropLast hm)
        · exact hraw

theorem readFileLines_of_no_feed (h : ∀ e ∈ entries, isKey e.key.toList)
    (hfeed : ∀ e ∈ entries, '\n' ∉ e.value.toList)
    {defs : List (List Char × List Char)}
    (hread : readFileLines environment ((entries.map lineOf).flatMap (·.splitOn '\n')) = some defs) :
    defs = entries.map (fun e => (e.key.toList, dropReturn e.value.toList)) ∧
      ∀ e ∈ entries, bytes (lineOf e) ≤ maxLineBytes := by
  induction entries generalizing defs with
  | nil =>
      cases hread
      exact ⟨rfl, fun e he => by cases he⟩
  | cons e entries ih =>
      have he := h e List.mem_cons_self
      have hline : (lineOf e).splitOn '\n' = [e.key.toList ++ '=' :: e.value.toList] := by
        obtain ⟨first, rest, hline, -, hvalue⟩ := splitOn_lineOf he
        obtain ⟨rfl, rfl⟩ := hvalue (hfeed e List.mem_cons_self)
        exact hline
      rw [List.map_cons, List.flatMap_cons, hline, List.singleton_append, readFileLines_line he] at hread
      split_ifs at hread with hlong
      obtain ⟨rest, hrest, rfl⟩ := Option.map_eq_some_iff.1 hread
      obtain ⟨hdefs, hshort⟩ :=
        ih (fun e' he' => h e' (List.mem_cons_of_mem _ he')) (fun e' he' => hfeed e' (List.mem_cons_of_mem _ he')) hrest
      rw [List.map_cons, List.forall_mem_cons, ← hdefs]
      exact ⟨rfl, Nat.le_of_not_lt hlong, hshort⟩

theorem defined_of_nodup {defs : List (List Char × List Char)} (h : (defs.map Prod.fst).Nodup)
    {d : List Char × List Char} (hd : d ∈ defs) :
    defined defs d.1 = some d.2 := by
  rw [defined]
  cases hf : defs.reverse.find? fun q => q.1 = d.1 with
  | none =>
      have hne := List.find?_eq_none.1 hf d (List.mem_reverse.2 hd)
      simp at hne
  | some q =>
      have hq := List.find?_some hf
      rw [List.inj_on_of_nodup_map h (List.mem_reverse.1 (List.mem_of_find?_eq_some hf)) hd (of_decide_eq_true hq)]
      rfl

theorem mem_of_defined {defs : List (List Char × List Char)} {key value : List Char}
    (h : defined defs key = some value) :
    (key, value) ∈ defs := by
  obtain ⟨d, hd, rfl⟩ := Option.map_eq_some_iff.1 h
  have hkey := List.find?_some hd
  have hmem := List.mem_reverse.1 (List.mem_of_find?_eq_some hd)
  rw [← of_decide_eq_true hkey]
  exact hmem

theorem nodup_definitions (h : (entries.map EnvEntry.key).Nodup) :
    ((definitions entries).map Prod.fst).Nodup := by
  have hmap : (definitions entries).map Prod.fst = (entries.map EnvEntry.key).map String.toList := by
    simp [definitions]
  rw [hmap]
  exact h.map fun _ _ he => String.toList_inj.1 he

/-- Where no key is repeated, one value that breaks its line changes what is defined. -/
theorem intact_of_defined (h : ∀ e ∈ entries, isKey e.key.toList)
    (hnodup : (entries.map EnvEntry.key).Nodup)
    (henvironment : ∀ line value, environment line = some value → '\n' ∉ value)
    {defs : List (List Char × List Char)}
    (hread : readFileLines environment ((entries.map lineOf).flatMap (·.splitOn '\n')) = some defs)
    (hdefined : ∀ key, defined defs key = defined (definitions entries) key) : ∀ e ∈ entries, Intact e := by
  have hvalue (e : EnvEntry) (he : e ∈ entries) : (e.key.toList, e.value.toList) ∈ defs := by
    refine mem_of_defined ((hdefined _).trans ?_)
    exact defined_of_nodup (nodup_definitions hnodup) (d := (e.key.toList, e.value.toList))
      (List.mem_map_of_mem he)
  have hlines : ∀ line ∈ (entries.map lineOf).flatMap (·.splitOn '\n'), '\n' ∉ line := by
    intro line hl
    obtain ⟨l, -, hl⟩ := List.mem_flatMap.1 hl
    exact notMem_of_mem_splitOn hl
  have hfeed : ∀ e ∈ entries, '\n' ∉ e.value.toList :=
    fun e he => feed_not_mem_defs henvironment hlines hread _ (hvalue e he)
  obtain ⟨hdefs, hshort⟩ := readFileLines_of_no_feed h hfeed hread
  intro e he
  refine ⟨hfeed e he, dropReturn_eq_self_iff.1 ?_, hshort e he⟩
  have hmem := hvalue e he
  rw [hdefs] at hmem
  obtain ⟨e', he', heq⟩ := List.mem_map.1 hmem
  obtain ⟨hkey, hdrop⟩ := Prod.mk.inj heq
  have hsame : e' = e := List.inj_on_of_nodup_map hnodup he' he (String.toList_inj.1 hkey)
  rw [hsame] at hdrop
  exact hdrop

end Render

/-- The entry's value stays on its line: no shared variable that it refers to has a line feed, and the whole neither ends with a
carriage return nor is too long. -/
structure Safe (shared : List SharedVariable) (e : EnvEntry) : Prop where
  feeds : ∀ scope name, Piece.reference scope name ∈ scan 0 e.value.toList →
    '\n' ∉ ((lookup shared scope name).getD "").toList
  ending : (expandValue shared e.value).toList.getLast? ≠ some '\r'
  short : bytes (lineOf { e with value := expandValue shared e.value }) ≤ maxLineBytes

variable {shared : List SharedVariable} {content file : String}

theorem safe_iff {e : EnvEntry} (h : e ∈ parseEnvContent content) :
    Safe shared e ↔ Intact { e with value := expandValue shared e.value } := by
  have hline := (of_mem_parseEnvContent h).2
  constructor
  · intro hs
    refine ⟨fun hm => ?_, hs.ending, hs.short⟩
    obtain ⟨scope, name, hpiece, hmem⟩ := (feed_mem_expandValue_iff hline).1 hm
    exact hs.feeds scope name hpiece hmem
  · intro hp
    exact ⟨fun scope name hpiece hmem => hp.feed ((feed_mem_expandValue_iff hline).2 ⟨scope, name, hpiece, hmem⟩), hp.ending, hp.short⟩

def expandedEntries (content : String) (shared : List SharedVariable) : List EnvEntry :=
  (runtimeEntries (parseEnvContent content)).map fun e => { e with value := expandValue shared e.value }

theorem runtimeEntries_expandReferences (entries : List EnvEntry) :
    runtimeEntries (expandReferences entries shared).1 = (runtimeEntries entries).map fun e => { e with value := expandValue shared e.value } := by
  rw [runtimeEntries, expandReferences, List.filter_map]
  rfl

theorem isKey_of_mem_expandedEntries {e : EnvEntry} (h : e ∈ expandedEntries content shared) :
    isKey e.key.toList := by
  obtain ⟨e, he, rfl⟩ := List.mem_map.1 h
  exact (of_mem_parseEnvContent (List.mem_of_mem_filter he)).1

theorem forall_safe_iff :
    (∀ e ∈ runtimeEntries (parseEnvContent content), Safe shared e) ↔
        ∀ e ∈ expandedEntries content shared, Intact e := by
  rw [expandedEntries, List.forall_mem_map]
  exact forall₂_congr fun e he => safe_iff (List.mem_of_mem_filter he)

/-- What docker defines from the file is what the runtime entries say, exactly if every value stays on its line; where a key is
repeated, at least if every value does. -/
theorem runtimeEnvFile_read_iff (environment : List Char → Option (List Char))
    (hfile : runtimeEnvFile content shared = .ok file) :
    (readEnvFile environment file = some (definitions (expandedEntries content shared)) ↔
      ∀ e ∈ runtimeEntries (parseEnvContent content), Safe shared e) ∧
    ((∀ e ∈ runtimeEntries (parseEnvContent content), Safe shared e) →
      ∃ defs, readEnvFile environment file = some defs ∧
        ∀ key, defined defs key = defined (definitions (expandedEntries content shared)) key) ∧
    (((runtimeEntries (parseEnvContent content)).map EnvEntry.key).Nodup →
      (∀ line value, environment line = some value → '\n' ∉ value) →
      ((∃ defs, readEnvFile environment file = some defs ∧
        ∀ key, defined defs key = defined (definitions (expandedEntries content shared)) key) ↔
          ∀ e ∈ runtimeEntries (parseEnvContent content), Safe shared e)) := by
  have hread : readEnvFile environment file =
      readFileLines environment (((expandedEntries content shared).map lineOf).flatMap (·.splitOn '\n')) := by
    rw [runtimeEnvFile] at hfile
    split_ifs at hfile with hmissing
    rw [← Except.ok.inj hfile]
    have hentries : runtimeEntries (expandReferences (parseEnvContent content) shared).1 =
        expandedEntries content shared :=
      runtimeEntries_expandReferences (parseEnvContent content)
    rw [readEnvFile_render, hentries]
    rw [hentries]
    exact fun e he => isKey_of_mem_expandedEntries he
  have hkeys : ∀ e ∈ expandedEntries content shared, isKey e.key.toList :=
    fun e he => isKey_of_mem_expandedEntries he
  have hlist : readFileLines environment (((expandedEntries content shared).map lineOf).flatMap (·.splitOn '\n')) =
      some (definitions (expandedEntries content shared)) ↔
        ∀ e ∈ expandedEntries content shared, Intact e := readFileLines_iff hkeys
  rw [hread, forall_safe_iff]
  refine ⟨hlist, fun h => ⟨_, hlist.2 h, fun _ => rfl⟩,
    fun hnodup henvironment => ⟨?_, fun h => ⟨_, hlist.2 h, fun _ => rfl⟩⟩⟩
  rintro ⟨defs, hdefs, hdefined⟩
  refine intact_of_defined hkeys ?_ henvironment hdefs hdefined
  rw [expandedEntries, List.map_map]
  exact hnodup

theorem runtimeEnvFile_read_reference :
    let shared : List SharedVariable := [{ scope := "team", key := "T", value := "x" }]
    readEnvFile (fun _ => none) "A=x\n" = some (definitions (expandedEntries "A=\x7b\x7bteam.T\x7d\x7d" shared)) := by
  intro shared
  have hfile : runtimeEnvFile "A=\x7b\x7bteam.T\x7d\x7d" shared = .ok "A=x\n" := by decide +kernel
  have hnodup : ((runtimeEntries (parseEnvContent "A=\x7b\x7bteam.T\x7d\x7d")).map EnvEntry.key).Nodup := by
    decide +kernel
  have h := runtimeEnvFile_read_iff (fun _ => none) hfile
  refine h.1.2 ?_
  refine ((h.2.2 hnodup fun _ _ he => by cases he).1 ⟨[(['A'], ['x'])], by decide +kernel, fun key => ?_⟩)
  have hdefs : definitions (expandedEntries "A=\x7b\x7bteam.T\x7d\x7d" shared) = [(['A'], ['x'])] := by
    decide +kernel
  rw [hdefs]

/-- A team's variable with a line feed in it. -/
theorem variable_defines_another :
    let shared : List SharedVariable := [{ scope := "team", key := "T", value := "x\nADMIN=1" }]
    ∃ file, runtimeEnvFile "A=\x7b\x7bteam.T\x7d\x7d" shared = .ok file ∧
      ¬ ∃ defs, readEnvFile (fun _ => none) file = some defs ∧
        ∀ key, defined defs key = defined (definitions (expandedEntries "A=\x7b\x7bteam.T\x7d\x7d" shared)) key := by
  intro shared
  refine ⟨"A=x\nADMIN=1\n", by decide +kernel, ?_⟩
  rintro ⟨defs, hdefs, hdefined⟩
  have hread : readEnvFile (fun _ => none) "A=x\nADMIN=1\n" =
      some [("A".toList, "x".toList), ("ADMIN".toList, "1".toList)] := by
    decide +kernel
  obtain rfl : _ = defs := Option.some_inj.1 (hread.symm.trans hdefs)
  have hadmin : ¬ defined [("A".toList, "x".toList), ("ADMIN".toList, "1".toList)] "ADMIN".toList =
      defined (definitions (expandedEntries "A=\x7b\x7bteam.T\x7d\x7d" shared)) "ADMIN".toList := by
        decide +kernel
  exact hadmin (hdefined _)

end Yeah.Deploy
