import Yeah.Deploy.EnvText
import Yeah.Text.Base64
import Mathlib.Data.List.TakeWhile
import Mathlib.Data.Bool.AllAny

namespace Yeah.Services

open Deploy Text

/-- The variables of a template; `ENV_KEY` admits their names. -/
structure ServiceTemplate where
  env : List (String × String)
  names : ∀ p ∈ env, isKey p.1.toList = true
  nodup : (env.map Prod.fst).Nodup

/-- `^\$generate:(\w+)$` -/
def generateMarker (v : String) : Option String :=
  let kind := v.toList.drop 10
  if "$generate:".toList <+: v.toList ∧ kind ≠ [] ∧
    kind.all isKeyChar then some (String.ofList kind) else none

/-- Random bytes, as many as are asked for. -/
abbrev RandomBytes := Nat → List UInt8

def hex (bytes : List UInt8) : String :=
  String.ofList (bytes.flatMap fun b => [Nat.digitChar (b.toNat / 16), Nat.digitChar (b.toNat % 16)])

def base64url (bytes : List UInt8) : String := String.ofList (Base64.encode bytes)

/-- The standard alphabet, padded. -/
def base64 (bytes : List UInt8) : String :=
  let letters := (Base64.encode bytes).map fun c => if c = '-' then '+' else if c = '_' then '/' else c
  String.ofList (letters ++ List.replicate ((4 - letters.length % 4) % 4) '=')

def letters (bytes : List UInt8) : String :=
  String.ofList (bytes.map fun b => Char.ofNat (97 + b.toNat % 26))

def generateSecret (kind : String) (bytes : RandomBytes) : Option String :=
  match kind with
  | "password" => some (hex (bytes 12))
  | "hex" => some (hex (bytes 32))
  | "base64" => some (base64url (bytes 32))
  | "base64long" => some (base64url (bytes 64))
  | "realbase64" => some (base64 (bytes 32))
  | "user" => some (letters (bytes 12))
  | _ => none

/-- `secret ?? v` -/
def renderedValue (bytes : RandomBytes) (v : String) : String :=
  ((generateMarker v).bind (generateSecret · bytes)).getD v

/-- What is drawn for a variable depends on its name. -/
abbrev Source := String → RandomBytes

def renderTemplateEnv (template : ServiceTemplate) (bytes : Source) : String :=
  let lines := template.env.map fun p => p.1 ++ "=" ++ renderedValue (bytes p.1) p.2
  if lines ≠ [] then "\n".intercalate lines ++ "\n" else ""

/-- `([A-Za-z_][A-Za-z0-9_]*)\s*=` -/
def keyAt (t : List Char) : Option (List Char) :=
  let key := t.takeWhile isKeyChar
  if isKey key ∧ ((t.dropWhile isKeyChar).dropWhile fun c => isSpace c.toNat).head? = some '=' then some key else none

/-- `^\s*(?:export\s+)?([A-Za-z_][A-Za-z0-9_]*)\s*=` -/
def keyOfLine (line : List Char) : Option (List Char) :=
  let t := line.dropWhile fun c => isSpace c.toNat
  let exported := t.drop 6
  if "export".toList <+: t ∧ exported.head?.any (fun c => isSpace c.toNat) then
    (keyAt (exported.dropWhile fun c => isSpace c.toNat)).or (keyAt t)
  else keyAt t

/-- Template literals write `null` for no secret. -/
def missingValue (bytes : RandomBytes) (v : String) : String :=
  match generateMarker v with
  | some kind => (generateSecret kind bytes).getD "null"
  | none => v

structure RestoredEnv where
  envContent : String
  added : List String
  deriving DecidableEq

/-- The entries that the loop does not skip. -/
def missingOf (template : ServiceTemplate) (envContent : String) : List (String × String) :=
  let present := (lines envContent.toList).filterMap keyOfLine
  template.env.filter fun p => p.1.toList ∉ present

def addMissingTemplateEnv (template : ServiceTemplate) (envContent : String)
    (bytes : Source) : RestoredEnv :=
  let missing := missingOf template envContent
  if missing = [] then ⟨envContent, []⟩
  else
    let base :=
      if envContent = "" ∨ envContent.toList.getLast? = some '\n' then envContent else envContent ++ "\n"
    ⟨base ++ "\n".intercalate (missing.map fun p => p.1 ++ "=" ++ missingValue (bytes p.1) p.2) ++ "\n",
      missing.map Prod.fst⟩

/-! ### What a text defines -/

/-- The line gives the variable a value, after `export` or not. -/
def LineDefines (line key : List Char) : Prop :=
  ∃ before gap value, line = before ++ (key ++ (gap ++ '=' :: value)) ∧
    (∀ c ∈ gap, isSpace c.toNat = true) ∧
    ((∀ c ∈ before, isSpace c.toNat = true) ∨ ∃ indent blanks, before = indent ++ ("export".toList ++ blanks) ∧ blanks ≠ [] ∧
      (∀ c ∈ indent, isSpace c.toNat = true) ∧ ∀ c ∈ blanks, isSpace c.toNat = true)

def Defines (text : String) (key : String) : Prop :=
  ∃ line ∈ lines text.toList, LineDefines line key.toList

/-- The line that an instance is created with. -/
def templateLine (bytes : Source) (p : String × String) : List Char :=
  p.1.toList ++ '=' :: (renderedValue (bytes p.1) p.2).toList

/-- A marker of a kind that there is no secret for. -/
def UnknownKind (v : String) : Prop :=
  ∃ kind : String, v = "$generate:" ++ kind ∧ kind ≠ "" ∧ (∀ c ∈ kind.toList, isKeyChar c = true) ∧
    kind ∉ ["password", "hex", "base64", "base64long", "realbase64", "user"]

section Keys

variable {line t key : List Char}

theorem isSpace_equals : isSpace '='.toNat = false := by decide

theorem isSpace_of_head (h : isKey key = true) {c : Char} {rest : List Char}
    (hc : c ∈ (key ++ rest).head?) : isSpace c.toNat = false := by
  obtain ⟨k, ks, rfl⟩ := List.exists_cons_of_ne_nil (key_ne_nil h)
  obtain rfl : k = c := by simpa using hc
  exact isSpace_of_keyChar (isKeyChar_of_mem h List.mem_cons_self)

theorem gap_head {gap : List Char} (hgap : ∀ c ∈ gap, isSpace c.toNat = true) (value : List Char) :
    ∀ c ∈ (gap ++ '=' :: value).head?, isKeyChar c = false := by
  intro c hc
  cases gap with
  | nil =>
      obtain rfl : '=' = c := by simpa using hc
      rfl
  | cons g gap =>
      obtain rfl : g = c := by simpa using hc
      have hspace := hgap g List.mem_cons_self
      rw [← Bool.not_eq_true]
      intro hkey
      rw [isSpace_of_keyChar hkey] at hspace
      cases hspace

theorem keyAt_eq_some : keyAt t = some key ↔
    isKey key = true ∧ ∃ gap value, t = key ++ (gap ++ '=' :: value) ∧
      ∀ c ∈ gap, isSpace c.toNat = true := by
  constructor
  · intro h
    simp only [keyAt] at h
    split_ifs at h with hkey
    obtain rfl := Option.some.inj h
    refine ⟨hkey.1, (t.dropWhile isKeyChar).takeWhile fun c => isSpace c.toNat, ?_⟩
    obtain ⟨value, hvalue⟩ : ∃ value, (t.dropWhile isKeyChar).dropWhile (fun c => isSpace c.toNat) = '=' :: value :=
      List.head?_eq_some_iff.1 hkey.2
    refine ⟨value, ?_, fun c hc => List.mem_takeWhile_imp (p := fun c : Char => isSpace c.toNat) hc⟩
    rw [← hvalue, List.takeWhile_append_dropWhile, List.takeWhile_append_dropWhile]
  · rintro ⟨hkey, gap, value, rfl, hgap⟩
    have hhead := gap_head hgap value
    have hchars : ∀ c ∈ key, isKeyChar c = true := fun c hc => isKeyChar_of_mem hkey hc
    have hrest : (gap ++ '=' :: value).dropWhile (fun c => isSpace c.toNat) = '=' :: value := by
      apply dropWhile_span hgap
      simpa using isSpace_equals
    simp only [keyAt, takeWhile_span hchars hhead, dropWhile_span hchars hhead, hrest, hkey,
      List.head?_cons, and_self, if_true]

theorem keyAt_append (hkey : isKey key = true) {gap : List Char} (hgap : ∀ c ∈ gap, isSpace c.toNat = true)
    (value : List Char) :
    keyAt (key ++ (gap ++ '=' :: value)) = some key := keyAt_eq_some.2 ⟨hkey, gap, value, rfl, hgap⟩

/-- After `export` and white space the name is another one, unless nothing but the equals sign follows. -/
theorem key_export {gap value : List Char} (hkey : isKey key = true)
    (hgap : ∀ c ∈ gap, isSpace c.toNat = true)
    (hexport : "export".toList <+: key ++ (gap ++ '=' :: value))
    (hspace : ((key ++ (gap ++ '=' :: value)).drop 6).head?.any (fun c => isSpace c.toNat) = true) :
    key = "export".toList := by
  obtain ⟨rest, hrest⟩ := hexport
  have hdrop : (key ++ (gap ++ '=' :: value)).drop 6 = rest := by
    rw [← hrest]
    rfl
  rw [hdrop] at hspace
  have hhead : ∀ c ∈ rest.head?, isKeyChar c = false := by
    intro c hc
    rw [Option.mem_def.1 hc, Option.any_some] at hspace
    rw [← Bool.not_eq_true]
    intro hchar
    rw [isSpace_of_keyChar hchar] at hspace
    cases hspace
  have hkeyChars : ∀ c ∈ key, isKeyChar c = true := fun c hc => isKeyChar_of_mem hkey hc
  have hwhole := congrArg (List.takeWhile isKeyChar) hrest
  rw [takeWhile_span (List.all_iff_forall_prop.1 (by decide)) hhead,
    takeWhile_span hkeyChars (gap_head hgap value)] at hwhole
  exact hwhole.symm

/-- The expression finds the name of the line's definition. -/
theorem keyOfLine_eq_some : keyOfLine line = some key ↔ isKey key = true ∧ LineDefines line key := by
  constructor
  · intro h
    have hsplit := List.takeWhile_append_dropWhile (p := fun c : Char => isSpace c.toNat) (l := line)
    have hindent : ∀ c ∈ line.takeWhile (fun c => isSpace c.toNat), isSpace c.toNat = true :=
      fun c hc => List.mem_takeWhile_imp (p := fun c : Char => isSpace c.toNat) hc
    have hplain : keyAt (line.dropWhile fun c => isSpace c.toNat) = some key → isKey key = true ∧
      LineDefines line key := by
      intro hat
      obtain ⟨hkey, gap, value, ht, hgap⟩ := keyAt_eq_some.1 hat
      exact ⟨hkey, _, gap, value, by rw [← ht, hsplit], hgap, Or.inl hindent⟩
    simp only [keyOfLine] at h
    split_ifs at h with hexport
    · obtain ⟨rest, hrest⟩ := hexport.1
      rw [← hrest] at h hplain
      have hdrop : ("export".toList ++ rest).drop 6 = rest := rfl
      have hspace : rest.head?.any (fun c => isSpace c.toNat) = true := by
        have hspace := hexport.2
        rwa [← hrest, hdrop] at hspace
      rw [hdrop] at h
      rcases Option.or_eq_some_iff.1 h with hat | ⟨-, hat⟩
      · obtain ⟨hkey, gap, value, ht, hgap⟩ := keyAt_eq_some.1 hat
        have hblanks := List.takeWhile_append_dropWhile (p := fun c : Char => isSpace c.toNat) (l := rest)
        refine ⟨hkey, line.takeWhile (fun c => isSpace c.toNat) ++ ("export".toList ++ rest.takeWhile fun c => isSpace c.toNat), gap, value, ?_, hgap,
          Or.inr ⟨_, _, rfl, ?_, hindent, fun c hc => List.mem_takeWhile_imp (p := fun c : Char => isSpace c.toNat) hc⟩⟩
        · rw [← ht, List.append_assoc, List.append_assoc, hblanks, hrest, hsplit]
        · intro hnil
          cases rest with
          | nil => cases hspace
          | cons c rest =>
              rw [List.takeWhile_cons_of_pos (by simpa using hspace)] at hnil
              cases hnil
      · exact hplain hat
    · exact hplain h
  · rintro ⟨hkey, before, gap, value, rfl, hgap, hbefore⟩
    have hhead : ∀ c ∈ (key ++ (gap ++ '=' :: value)).head?, isSpace c.toNat = false :=
      fun c hc => isSpace_of_head hkey hc
    have hat := keyAt_append hkey hgap value
    rcases hbefore with hblank | ⟨indent, blanks, rfl, hne, hindent, hblanks⟩
    · simp only [keyOfLine, dropWhile_span hblank hhead]
      split_ifs with hexport
      · obtain rfl := key_export hkey hgap hexport.1 hexport.2
        have hdrop : ("export".toList ++ (gap ++ '=' :: value)).drop 6 = gap ++ '=' :: value := rfl
        have hrest : (gap ++ '=' :: value).dropWhile (fun c => isSpace c.toNat) = '=' :: value := by
          apply dropWhile_span hgap
          simpa using isSpace_equals
        rw [hdrop, hrest, hat]
        rfl
      · exact hat
    · have ht : (indent ++ ("export".toList ++ blanks) ++ (key ++ (gap ++ '=' :: value))).dropWhile (fun c => isSpace c.toNat) =
          "export".toList ++ (blanks ++ (key ++ (gap ++ '=' :: value))) := by
        rw [List.append_assoc, List.append_assoc]
        apply dropWhile_span hindent
        intro c hc
        obtain rfl : 'e' = c := by simpa using hc
        decide
      have hdrop : ("export".toList ++ (blanks ++ (key ++ (gap ++ '=' :: value)))).drop 6 = blanks ++
        (key ++ (gap ++ '=' :: value)) := rfl
      have hspace : (blanks ++ (key ++ (gap ++ '=' :: value))).head?.any (fun c => isSpace c.toNat) = true := by
        obtain ⟨b, bs, rfl⟩ := List.exists_cons_of_ne_nil hne
        simpa using hblanks b List.mem_cons_self
      simp only [keyOfLine, ht, hdrop]
      rw [if_pos ⟨List.prefix_append _ _, hspace⟩, dropWhile_span hblanks hhead, hat]
      rfl

end Keys

section Presence

variable {text key : String} {line value : List Char}

theorem LineDefines.dropReturn {k : List Char} (h : LineDefines line k) :
    LineDefines (dropReturn line) k := by
  obtain ⟨before, gap, value, rfl, hgap, hbefore⟩ := h
  rw [Text.dropReturn]
  split_ifs with hlast
  · cases value using List.reverseRecOn with
    | nil =>
        rw [← List.append_assoc, ← List.append_assoc, List.getLast?_concat] at hlast
        cases hlast
    | append_singleton value c =>
        refine ⟨before, gap, value, ?_, hgap, hbefore⟩
        have hconcat : before ++ (k ++ (gap ++ '=' :: (value ++ [c]))) = before ++
          (k ++ (gap ++ '=' :: value)) ++ [c] := by simp
        rw [hconcat, List.dropLast_concat]
  · exact ⟨before, gap, value, rfl, hgap, hbefore⟩

theorem defines_ended (h : Defines text key) :
    ∃ line ∈ (text.toList.splitOn '\n').map dropReturn, LineDefines line key.toList := by
  obtain ⟨line, hline, hdefines⟩ := h
  have hne := List.splitOn_ne_nil '\n' text.toList
  rw [lines, List.mem_append, List.getLast?_eq_some_getLast hne, Option.toList_some,
    List.mem_singleton] at hline
  rcases hline with hline | rfl
  · obtain ⟨piece, hpiece, rfl⟩ := List.mem_map.1 hline
    exact ⟨_, List.mem_map_of_mem (List.dropLast_subset _ hpiece), hdefines⟩
  · exact ⟨_, List.mem_map_of_mem (List.getLast_mem hne), hdefines.dropReturn⟩

theorem not_defines_nil {k : List Char} : ¬ LineDefines [] k := by
  rintro ⟨before, gap, value, h, -⟩
  simp at h

theorem splitOn_definition {k : List Char} (hk : '\n' ∉ k) (v : List Char) :
    ∃ v₁ rest, (k ++ '=' :: v).splitOn '\n' = (k ++ '=' :: v₁) :: rest := by
  have hhead : ∀ v₁ : List Char, '\n' ∉ v₁ → '\n' ∉ k ++ '=' :: v₁ := by
    intro v₁ hv
    simp [hk, hv]
  by_cases hv : '\n' ∈ v
  · obtain ⟨v₁, v₂, rfl, hv₁⟩ := List.eq_append_cons_of_mem hv
    refine ⟨v₁, v₂.splitOn '\n', ?_⟩
    rw [← List.cons_append, ← List.append_assoc, List.splitOn_append_cons_self_of_not_mem (hhead v₁ hv₁)]
  · exact ⟨v, [], List.splitOn_eq_singleton (hhead v hv)⟩

theorem defines_line {k v : List Char} {entries : List (List Char × List Char)} (hk : '\n' ∉ k)
    (h : (k, v) ∈ entries) :
    ∃ line ∈ lines (entries.flatMap fun p => p.1 ++ '=' :: p.2 ++ ['\n']), LineDefines line k := by
  induction entries with
  | nil => cases h
  | cons p entries ih =>
      rw [List.flatMap_cons, List.append_assoc, List.singleton_append, lines_append_feed]
      rcases List.mem_cons.1 h with rfl | h
      · obtain ⟨v₁, rest, hsplit⟩ := splitOn_definition hk v
        have hdefines : LineDefines (k ++ '=' :: v₁) k := ⟨[], [], v₁, rfl, by simp, Or.inl (by simp)⟩
        refine ⟨_, List.mem_append_left _ (List.mem_map_of_mem ?_), hdefines.dropReturn⟩
        rw [hsplit]
        exact List.mem_cons_self
      · obtain ⟨line, hline, hdefines⟩ := ih h
        exact ⟨line, List.mem_append_right _ hline, hdefines⟩

theorem mem_present_iff (hkey : isKey key.toList = true) :
    key.toList ∈ (lines text.toList).filterMap keyOfLine ↔ Defines text key := by
  rw [List.mem_filterMap]
  constructor
  · rintro ⟨line, hline, h⟩
    exact ⟨line, hline, (keyOfLine_eq_some.1 h).2⟩
  · rintro ⟨line, hline, h⟩
    exact ⟨line, hline, keyOfLine_eq_some.2 ⟨hkey, h⟩⟩

end Presence

/-! ### The two expansions -/

def separator (text : String) : List Char :=
  if text = "" ∨ text.toList.getLast? = some '\n' then [] else ['\n']

/-- Adding what is missing agrees with creating from the template. -/
structure Restored (template : ServiceTemplate) (text : String) (bytes : Source) : Prop where
  kept : text.toList <+: (addMissingTemplateEnv template text bytes).envContent.toList
  order : (addMissingTemplateEnv template text bytes).added.Sublist (template.env.map Prod.fst)
  missing : ∀ p ∈ template.env, p.1 ∈ (addMissingTemplateEnv template text bytes).added ↔
    ¬ Defines text p.1
  created : (renderTemplateEnv template bytes).toList = template.env.flatMap fun p => templateLine bytes p ++ ['\n']
  lines : (addMissingTemplateEnv template text bytes).envContent.toList = text.toList ++
    if (addMissingTemplateEnv template text bytes).added = [] then []
    else separator text ++ (template.env.filter fun p => p.1 ∈ (addMissingTemplateEnv template text bytes).added).flatMap fun p =>
      templateLine bytes p ++ ['\n']
  again : ∀ bytes', addMissingTemplateEnv template (addMissingTemplateEnv template text bytes).envContent bytes' =
    ⟨(addMissingTemplateEnv template text bytes).envContent, []⟩

section Expansion

variable {template : ServiceTemplate} {text : String} {bytes : Source}

theorem isKeyChar_break : isKeyChar '\n' = false := by decide

def missingLine (bytes : Source) (p : String × String) : List Char :=
  p.1.toList ++ '=' :: (missingValue (bytes p.1) p.2).toList

theorem mem_missingOf {p : String × String} :
    p ∈ missingOf template text ↔ p ∈ template.env ∧ ¬ Defines text p.1 := by
  rw [missingOf, List.mem_filter, decide_eq_true_eq]
  constructor
  · exact fun h => ⟨h.1, fun hd => h.2 ((mem_present_iff (template.names p h.1)).2 hd)⟩
  · exact fun h => ⟨h.1, fun hm => h.2 ((mem_present_iff (template.names p h.1)).1 hm)⟩

theorem addMissing_none (h : missingOf template text = []) :
    addMissingTemplateEnv template text bytes = ⟨text, []⟩ := by
  simp [addMissingTemplateEnv, h]

theorem addMissing_added (template : ServiceTemplate) (text : String) (bytes : Source) :
    (addMissingTemplateEnv template text bytes).added = (missingOf template text).map Prod.fst := by
  by_cases h : missingOf template text = []
  · rw [addMissing_none h, h]
    rfl
  · simp [addMissingTemplateEnv, h]

theorem join_lines {α : Type} {l : List α} (f : α → String) (h : l ≠ []) :
    ("\n".intercalate (l.map f) ++ "\n").toList = l.flatMap fun a => (f a).toList ++ ['\n'] := by
  obtain ⟨a, l, rfl⟩ := List.exists_cons_of_ne_nil h
  rw [String.toList_append, String.toList_intercalate, List.map_cons, List.map_cons]
  have hjoin := intercalate_append ['\n'] (f a).toList ((l.map f).map String.toList)
  rw [← List.map_cons, ← List.map_cons, List.flatMap_map, List.flatMap_map] at hjoin
  exact hjoin

theorem addMissing_text (h : missingOf template text ≠ []) :
    (addMissingTemplateEnv template text bytes).envContent.toList =
      text.toList ++ separator text ++ (missingOf template text).flatMap fun p => missingLine bytes p ++
        ['\n'] := by
  have hlines := join_lines (fun p : String × String => p.1 ++ "=" ++ missingValue (bytes p.1) p.2) h
  simp only [addMissingTemplateEnv, if_neg h, separator]
  rw [String.append_assoc, String.toList_append, hlines]
  split_ifs with hend
  · simp [missingLine]
  · simp [missingLine]

theorem lines_result (text : String) (added : List Char) :
    ∃ first, Text.lines (text.toList ++ separator text ++ added) = first ++ Text.lines added ∧
      ∀ key, Defines text key → ∃ line ∈ first, LineDefines line key.toList := by
  rw [separator]
  split_ifs with hend
  · rcases hend with rfl | hlast
    · refine ⟨[], rfl, ?_⟩
      rintro key ⟨line, hline, hdefines⟩
      obtain rfl : line = [] := by simpa [Text.lines] using hline
      exact absurd hdefines not_defines_nil
    · obtain ⟨front, hfront⟩ := List.getLast?_eq_some_iff.1 hlast
      refine ⟨(front.splitOn '\n').map dropReturn, ?_, ?_⟩
      · rw [hfront, List.append_nil, List.append_assoc, List.singleton_append, lines_append_feed]
      · rintro key ⟨line, hline, hdefines⟩
        rw [hfront, lines_append_feed, List.mem_append] at hline
        rcases hline with hline | hline
        · exact ⟨line, hline, hdefines⟩
        · obtain rfl : line = [] := by simpa [Text.lines] using hline
          exact absurd hdefines not_defines_nil
  · exact ⟨_, by rw [List.append_assoc, List.singleton_append, lines_append_feed],
      fun key h => defines_ended h⟩

theorem missingOf_result (template : ServiceTemplate) (text : String) (bytes : Source) :
    missingOf template (addMissingTemplateEnv template text bytes).envContent = [] := by
  by_cases hnil : missingOf template text = []
  · rw [addMissing_none hnil, hnil]
  rw [List.eq_nil_iff_forall_not_mem]
  intro p hp
  obtain ⟨hmem, hdefines⟩ := mem_missingOf.1 hp
  apply hdefines
  obtain ⟨first, hfirst, hold⟩ :=
    lines_result text ((missingOf template text).flatMap fun p => missingLine bytes p ++ ['\n'])
  rw [Defines, addMissing_text hnil, hfirst]
  by_cases htext : Defines text p.1
  · obtain ⟨line, hline, h⟩ := hold p.1 htext
    exact ⟨line, List.mem_append_left _ hline, h⟩
  · have hentry :=
      List.mem_map_of_mem (f := fun p : String × String => (p.1.toList, (missingValue (bytes p.1) p.2).toList))
      (mem_missingOf.2 ⟨hmem, htext⟩)
    obtain ⟨line, hline, h⟩ := defines_line (not_mem_key (template.names p hmem) isKeyChar_break) hentry
    rw [List.flatMap_map] at hline
    exact ⟨line, List.mem_append_right _ hline, h⟩

theorem renderTemplateEnv_toList (template : ServiceTemplate) (bytes : Source) :
    (renderTemplateEnv template bytes).toList = template.env.flatMap fun p => templateLine bytes p ++
        ['\n'] := by
  simp only [renderTemplateEnv]
  split_ifs with hne
  · have hne : template.env ≠ [] := fun hnil => hne (by rw [hnil]; rfl)
    rw [join_lines _ hne]
    simp [templateLine]
  · rw [not_not, List.map_eq_nil_iff] at hne
    rw [hne]
    rfl

theorem generateMarker_eq_some {v kind : String} :
    generateMarker v = some kind ↔ v = "$generate:" ++ kind ∧ kind ≠ "" ∧
      ∀ c ∈ kind.toList, isKeyChar c = true := by
  simp only [generateMarker]
  constructor
  · intro h
    split_ifs at h with hmarker
    obtain ⟨⟨rest, hrest⟩, hne, hall⟩ := hmarker
    have hdrop : v.toList.drop 10 = rest := by
      rw [← hrest]
      rfl
    rw [hdrop] at h hne hall
    obtain rfl := Option.some.inj h
    refine ⟨String.toList_inj.1 ?_, ?_, ?_⟩
    · have hkind : (String.ofList rest).toList = rest := String.toList_ofList
      rw [String.toList_append, hkind]
      exact hrest.symm
    · rw [ne_eq, ← String.toList_eq_nil_iff, String.toList_ofList]
      exact hne
    · rw [String.toList_ofList]
      exact List.all_eq_true.1 hall
  · rintro ⟨rfl, hne, hall⟩
    have hdrop : ("$generate:" ++ kind).toList.drop 10 = kind.toList := by
      rw [String.toList_append]
      rfl
    rw [hdrop, if_pos, String.ofList_toList]
    refine ⟨?_, ?_, List.all_eq_true.2 hall⟩
    · rw [String.toList_append]
      exact List.prefix_append _ _
    · rw [ne_eq, String.toList_eq_nil_iff]
      exact hne

theorem generateSecret_eq_none {kind : String} (bytes : RandomBytes) :
    generateSecret kind bytes = none ↔
      kind ∉ ["password", "hex", "base64", "base64long", "realbase64", "user"] := by
  unfold generateSecret
  split <;> simp_all

/-- The expansions differ in the text for no secret. -/
theorem missingValue_cases (bytes : RandomBytes) (v : String) :
    (missingValue bytes v = renderedValue bytes v ∧ ¬ UnknownKind v) ∨
    (missingValue bytes v = "null" ∧ UnknownKind v ∧ ∃ rest, (renderedValue bytes v).toList = '$' :: rest) := by
  have hunknown : UnknownKind v ↔ ∃ kind, generateMarker v = some kind ∧
    generateSecret kind bytes = none := by
    apply exists_congr
    intro kind
    rw [generateMarker_eq_some, generateSecret_eq_none]
    tauto
  rw [hunknown, missingValue, renderedValue]
  cases hmarker : generateMarker v with
  | none => simp
  | some kind =>
      cases hsecret : generateSecret kind bytes with
      | some secret => simp [hsecret]
      | none =>
          right
          have hv := (generateMarker_eq_some.1 hmarker).1
          refine ⟨by simp [hsecret], ⟨kind, rfl, hsecret⟩, "generate:".toList ++ kind.toList, ?_⟩
          simp only [Option.bind_some, hsecret, Option.getD_none, hv, String.toList_append]
          rfl

theorem missingLines_eq_iff {bytes : Source} {entries : List (String × String)} :
    (entries.flatMap fun p => missingLine bytes p ++ ['\n']) = (entries.flatMap fun p => templateLine bytes p ++ ['\n']) ↔
      ∀ p ∈ entries, ¬ UnknownKind p.2 := by
  induction entries with
  | nil => simp
  | cons p entries ih =>
      rw [List.flatMap_cons, List.flatMap_cons, List.forall_mem_cons, ← ih, missingLine, templateLine]
      rcases missingValue_cases (bytes p.1) p.2 with ⟨heq, hknown⟩ | ⟨hnull, hunknown, rest, hrest⟩
      · rw [heq, List.append_cancel_left_eq]
        simp [hknown]
      · simp only [hunknown, not_true_eq_false, false_and, iff_false]
        intro h
        rw [hnull, hrest] at h
        simp at h

/-- Restoring agrees with creating unless a marker of an unknown kind is missing. -/
theorem restored_iff (template : ServiceTemplate) (text : String) (bytes : Source) :
    Restored template text bytes ↔ ∀ p ∈ template.env, UnknownKind p.2 → Defines text p.1 := by
  have hadded : ∀ p ∈ template.env, p.1 ∈ (addMissingTemplateEnv template text bytes).added ↔
    ¬ Defines text p.1 := by
    intro p hp
    rw [addMissing_added, List.mem_map]
    constructor
    · rintro ⟨q, hq, heq⟩
      rw [← heq]
      exact (mem_missingOf.1 hq).2
    · exact fun h => ⟨p, mem_missingOf.2 ⟨hp, h⟩, rfl⟩
  have hfilter : (template.env.filter fun p => p.1 ∈ (addMissingTemplateEnv template text bytes).added) =
      missingOf template text := by
    apply List.filter_congr
    intro p hp
    rw [decide_eq_decide, hadded p hp, mem_present_iff (template.names p hp)]
  have hnone : (addMissingTemplateEnv template text bytes).added = [] ↔ missingOf template text = [] := by
    rw [addMissing_added, List.map_eq_nil_iff]
  have hcondition : (∀ p ∈ template.env, UnknownKind p.2 → Defines text p.1) ↔
    ∀ p ∈ missingOf template text, ¬ UnknownKind p.2 := by
    constructor
    · exact fun h p hp hunknown => (mem_missingOf.1 hp).2 (h p (mem_missingOf.1 hp).1 hunknown)
    · intro h p hp hunknown
      by_contra hdefines
      exact h p (mem_missingOf.2 ⟨hp, hdefines⟩) hunknown
  rw [hcondition]
  constructor
  · intro h p hp
    have hne : missingOf template text ≠ [] := List.ne_nil_of_mem hp
    have hlines := h.lines
    rw [addMissing_text hne, if_neg (mt hnone.1 hne), hfilter, List.append_assoc,
      List.append_cancel_left_eq, List.append_cancel_left_eq] at hlines
    exact missingLines_eq_iff.1 hlines p hp
  · intro h
    refine ⟨?_, ?_, hadded, renderTemplateEnv_toList template bytes, ?_,
      fun bytes' => addMissing_none (missingOf_result template text bytes)⟩
    · by_cases hnil : missingOf template text = []
      · rw [addMissing_none hnil]
      · rw [addMissing_text hnil, List.append_assoc]
        exact List.prefix_append _ _
    · rw [addMissing_added]
      exact List.filter_sublist.map _
    · by_cases hnil : missingOf template text = []
      · rw [if_pos (hnone.2 hnil), addMissing_none hnil, List.append_nil]
      · rw [addMissing_text hnil, if_neg (mt hnone.1 hnil), hfilter, missingLines_eq_iff.2 h,
          List.append_assoc]

/-- A template with a marker that no secret is made for. -/
def tokenTemplate : ServiceTemplate := ⟨[("TOKEN", "$generate:uuid")], by decide, by decide⟩

/-- An instance is created with the marker, and `null` is restored. -/
theorem unknown_kind_null :
    renderTemplateEnv tokenTemplate (fun _ n => List.replicate n 1) = "TOKEN=$generate:uuid\n" ∧
    (addMissingTemplateEnv tokenTemplate "" fun _ n => List.replicate n 1).envContent = "TOKEN=null\n" ∧
    ¬ ∀ template text bytes, Restored template text bytes := by
  refine ⟨by decide +kernel, by decide +kernel, fun hclaim => ?_⟩
  have hlines := (hclaim tokenTemplate "" fun _ n => List.replicate n 1).lines
  revert hlines
  decide +kernel

end Expansion

end Yeah.Services
