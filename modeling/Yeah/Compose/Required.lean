import Yeah.Compose.Dotenv
import Yeah.Deploy.EnvText
import Yeah.Sorting

namespace Yeah.Compose

open Deploy Text

/-- `${NAME:?message}` or `${NAME?message}`, as far as it has been read at its dollar. -/
structure Opening where
  name : List Char
  /-- An empty value does not do either. -/
  nonempty : Bool
  /-- A brace follows on the line. -/
  closed : Bool
  deriving DecidableEq

def closes (message : List Char) : Bool := '\x7d' ∈ message.takeWhile (· ≠ '\n')

/-- `\{([A-Za-z_][A-Za-z0-9_]*):?\?` after a dollar. -/
def opening : List Char → Option Opening
  | '\x7b' :: cs =>
      let name := cs.takeWhile isKeyChar
      if isKey name then
        match cs.dropWhile isKeyChar with
        | ':' :: '?' :: message => some ⟨name, true, closes message⟩
        | '?' :: message => some ⟨name, false, closes message⟩
        | _ => none
      else none
  | _ => none

/-- `matchAll` with `(?<!\$)\$`; `after` says that the last character is a dollar. Matches cannot overlap. -/
def requiredNames : Bool → List Char → List (List Char)
  | _, [] => []
  | after, c :: cs =>
      (if c = '$' ∧ after = false then ((opening cs).map Opening.name).toList else []) ++
          requiredNames (decide (c = '$')) cs

/-- `^\s*([A-Za-z_][A-Za-z0-9_]*)=(.*)$` -/
def panelLine (line : List Char) : Option (List Char × List Char) :=
  let text := line.dropWhile fun c => isSpace c.toNat
  let key := text.takeWhile isKeyChar
  match text.dropWhile isKeyChar with
  | '=' :: value =>
      if isKey key && value.all (fun c => !isLineTerminator c) then some (key, strip (fun c => isSpace c.toNat) value) else none
  | _ => none

/-- The last line of a name counts. -/
def panelValue (envContent : String) (name : List Char) : Option (List Char) :=
  defined ((lines envContent.toList).filterMap panelLine) name

/-- `!values.get(name)` -/
def isFilled (value : Option (List Char)) : Bool := value.any fun v => v ≠ []

def missingRequiredVars (compose envContent : String) : List (List Char) :=
  (requiredNames false compose.toList).eraseDups.filter fun name => !isFilled (panelValue envContent name)

/-! ### What Compose misses -/

def openings : Bool → List Char → List (Opening × Bool)
  | _, '$' :: '$' :: cs => openings true cs
  | after, '$' :: cs => ((opening cs).map (·, after)).toList ++ openings false cs
  | _, _ :: cs => openings false cs
  | _, [] => []

def Sets (line name value : List Char) : Prop :=
  isKey name ∧ (∀ c ∈ value, isLineTerminator c = false) ∧
    ∃ blank, (∀ c ∈ blank, isSpace c.toNat = true) ∧ line = blank ++ (name ++ '=' :: value)

/-- The last line that sets the name has more than blanks behind the `=`. -/
def Assigned (envContent : String) (name : List Char) : Prop :=
  ∃ before line after value, lines envContent.toList = before ++ line :: after ∧ Sets line name value ∧
    (∃ c ∈ value, isSpace c.toNat = false) ∧ ∀ later ∈ after, ∀ v, ¬ Sets later name v

section Compose

variable (d : Dotenv) (compose envContent : String) (name : List Char)

def composeValue : Option (List Char) :=
  (d.read (fun _ => none) envContent).bind fun defs => defined defs name

/-- Compose reads the env text and comes to a reference that demands the variable. -/
def Demands (o : Opening) : Prop :=
  (d.read (fun _ => none) envContent).isSome = true ∧ o.name = name ∧ o.closed = true ∧
      ∃ after, (o, after) ∈ openings false compose.toList

/-- Compose refuses to start for want of the variable. -/
def Refused : Prop := ∃ o, Demands d compose envContent name o ∧
  (composeValue d envContent name = none ∨ o.nonempty = true ∧ composeValue d envContent name = some [])

def Demanded : Prop := ∃ o, Demands d compose envContent name o

def Suffices : Prop := ∃ value, composeValue d envContent name = some value ∧
    (value = [] → ∀ o, Demands d compose envContent name o → o.nonempty = false)

/-- An opening of the variable does not stand directly behind an escaped dollar. -/
def Seen : Prop := ∃ o, (o, false) ∈ openings false compose.toList ∧ o.name = name

/-- When the panel and Compose come to the same about a variable. -/
structure Agree : Prop where
  /-- Where Compose demands what the panel sees, the line that sets it is filled if the value does, and only then. -/
  seen : Demanded d compose envContent name → Seen compose name →
    (Assigned envContent name ↔ Suffices d compose envContent name)
  /-- Where each opening stands behind an escaped dollar, the value does. -/
  hidden : Demanded d compose envContent name → ¬ Seen compose name → Suffices d compose envContent name
  /-- Where Compose demands nothing and an opening is seen, a line fills it. -/
  free : ¬ Demanded d compose envContent name → Seen compose name → Assigned envContent name

end Compose

section Openings

variable {cs : List Char}

theorem requiredNames_of_head (h : cs.head? ≠ some '$') :
    requiredNames true cs = requiredNames false cs := by
  cases cs with
  | nil => rfl
  | cons c cs =>
      have hc : c ≠ '$' := fun heq => h (by rw [heq]; rfl)
      simp [requiredNames, hc]

/-- The lookbehind sees the openings that do not stand behind an escaped dollar. -/
theorem requiredNames_eq (after : Bool) (cs : List Char) :
    requiredNames after cs = ((openings after cs).filter fun p => !p.2).map fun p => p.1.name := by
  fun_induction openings after cs with
  | case1 after cs ih => simp [requiredNames, opening, ih]
  | case2 after cs hcs ih =>
      have hhead : cs.head? ≠ some '$' := by
        cases cs with
        | nil => simp
        | cons c cs => exact fun heq => hcs cs (by rw [Option.some_inj.1 heq])
      rw [requiredNames, decide_eq_true rfl, requiredNames_of_head hhead, ih, List.filter_append,
        List.map_append]
      cases after <;> cases opening cs <;> simp
  | case3 after c cs hpair hdollar ih =>
      have hc : c ≠ '$' := fun heq => hdollar heq
      simp [requiredNames, hc, ih]
  | case4 => rfl

theorem mem_requiredNames {name : List Char} :
    name ∈ requiredNames false cs ↔ ∃ o, (o, false) ∈ openings false cs ∧ o.name = name := by
  rw [requiredNames_eq, List.mem_map]
  constructor
  · rintro ⟨⟨o, after⟩, ho, rfl⟩
    obtain ⟨hmem, hafter⟩ := List.mem_filter.1 ho
    obtain rfl : after = false := by simpa using hafter
    exact ⟨o, hmem, rfl⟩
  · rintro ⟨o, ho, rfl⟩
    exact ⟨(o, false), List.mem_filter.2 ⟨ho, rfl⟩, rfl⟩

end Openings

section Lines

variable {line name value : List Char} {envContent : String}

theorem panelLine_eq_some_iff : panelLine line = some (name, value) ↔
    ∃ v, Sets line name v ∧ value = strip (fun c => isSpace c.toNat) v := by
  constructor
  · intro h
    rw [panelLine] at h
    split at h
    · next v hv =>
      split at h
      · next hc =>
        cases h
        obtain ⟨hkey, hall⟩ := Bool.and_eq_true_iff.1 hc
        have hline : line = line.takeWhile (fun c => isSpace c.toNat) ++
          line.dropWhile fun c => isSpace c.toNat := List.takeWhile_append_dropWhile.symm
        have htext :=
          (List.takeWhile_append_dropWhile (p := isKeyChar) (l := line.dropWhile fun c => isSpace c.toNat)).symm
        rw [hv] at htext
        exact ⟨v, ⟨hkey, fun c hm => by simpa using List.all_eq_true.1 hall c hm, _, fun c hm => List.mem_takeWhile_imp (p := fun c : Char => isSpace c.toNat) hm, hline.trans (congrArg _ htext)⟩, rfl⟩
      · cases h
    · cases h
  · rintro ⟨v, ⟨hkey, hv, blank, hblank, rfl⟩, rfl⟩
    have hhead : ∀ c ∈ (name ++ '=' :: v).head?, isSpace c.toNat = false := by
      intro c hc
      cases name with
      | nil => cases hkey
      | cons a name =>
          obtain rfl : a = c := Option.some_inj.1 hc
          exact isSpace_of_keyChar (isKeyChar_of_mem hkey List.mem_cons_self)
    have hdrop := dropWhile_span (p := fun c : Char => isSpace c.toNat) hblank hhead
    simp only [panelLine, hdrop, takeWhile_key hkey, dropWhile_key hkey]
    have hall : v.all (fun c => !isLineTerminator c) = true :=
      List.all_eq_true.2 fun c hm => by rw [hv c hm]; rfl
    simp only [hkey, hall, Bool.and_true, if_true]

theorem panelLine_of_sets (h : Sets line name value) :
    panelLine line = some (name, strip (fun c => isSpace c.toNat) value) :=
  panelLine_eq_some_iff.2 ⟨value, h, rfl⟩

theorem defined_filterMap {ls : List (List Char)} {f : List Char → Option (List Char × List Char)} :
    defined (ls.filterMap f) name = some value ↔
    ∃ before line after, ls = before ++ line :: after ∧ f line = some (name, value) ∧
      ∀ later ∈ after, ∀ v, f later ≠ some (name, v) := by
  rw [defined, ← List.filterMap_reverse, List.find?_filterMap, Option.map_eq_some_iff]
  constructor
  · rintro ⟨⟨key, v⟩, hfind, rfl⟩
    obtain ⟨line, hfind, hline⟩ := Option.bind_eq_some_iff.1 hfind
    obtain ⟨hname, after, before, hsplit, hafter⟩ := List.find?_eq_some_iff_append.1 hfind
    obtain rfl : key = name := by simpa [hline] using hname
    have hls : ls = before.reverse ++ line :: after.reverse := by
      rw [← List.reverse_reverse ls, hsplit]
      simp
    refine ⟨before.reverse, line, after.reverse, hls, hline, fun later hlater w hw => ?_⟩
    have hnot := hafter later (List.mem_reverse.1 hlater)
    simp [hw] at hnot
  · rintro ⟨before, line, after, rfl, hline, hafter⟩
    refine ⟨(name, value), Option.bind_eq_some_iff.2 ⟨line, ?_, hline⟩, rfl⟩
    refine List.find?_eq_some_iff_append.2 ⟨by simp [hline], after.reverse, before.reverse, by simp, fun later hlater => ?_⟩
    have hnot := hafter later (List.mem_reverse.1 hlater)
    cases hf : f later with
    | none => simp
    | some p =>
        have hp : p.1 ≠ name := fun heq => hnot p.2 (by rw [hf, ← heq])
        simpa using hp

theorem isFilled_panelValue :
    isFilled (panelValue envContent name) = true ↔ Assigned envContent name := by
  have hfilled : isFilled (panelValue envContent name) = true ↔
    ∃ v, panelValue envContent name = some v ∧ v ≠ [] := by
    rw [isFilled, Option.any_eq_true]
    simp
  rw [hfilled, Assigned]
  constructor
  · rintro ⟨v, hv, hne⟩
    obtain ⟨before, line, after, hls, hline, hafter⟩ := defined_filterMap.1 hv
    obtain ⟨value, hset, rfl⟩ := panelLine_eq_some_iff.1 hline
    exact ⟨before, line, after, value, hls, hset, strip_ne_nil_iff.1 hne,
      fun later hlater w hw => hafter later hlater _ (panelLine_of_sets hw)⟩
  · rintro ⟨before, line, after, value, hls, hset, hvalue, hafter⟩
    refine ⟨strip (fun c => isSpace c.toNat) value,
      defined_filterMap.2 ⟨before, line, after, hls, panelLine_of_sets hset, ?_⟩, strip_ne_nil_iff.2 hvalue⟩
    intro later hlater w hw
    obtain ⟨v, hv, -⟩ := panelLine_eq_some_iff.1 hw
    exact hafter later hlater v hv

end Lines

section Main

variable (d : Dotenv) (compose envContent : String) {name : List Char}

theorem mem_missingRequiredVars :
    name ∈ missingRequiredVars compose envContent ↔ Seen compose name ∧ ¬ Assigned envContent name := by
  rw [missingRequiredVars, List.mem_filter, List.mem_eraseDups, mem_requiredNames,
    ← isFilled_panelValue, Seen]
  simp

theorem refused_iff : Refused d compose envContent name ↔
    Demanded d compose envContent name ∧ ¬ Suffices d compose envContent name := by
  constructor
  · rintro ⟨o, ho, hvalue⟩
    refine ⟨⟨o, ho⟩, fun ⟨value, hv, hempty⟩ => ?_⟩
    rcases hvalue with hnone | ⟨hnonempty, hnil⟩
    · rw [hnone] at hv
      cases hv
    · obtain rfl : value = [] := Option.some_inj.1 (hv.symm.trans hnil)
      rw [hempty rfl o ho] at hnonempty
      cases hnonempty
  · rintro ⟨⟨o, ho⟩, hnot⟩
    cases hv : composeValue d envContent name with
    | none => exact ⟨o, ho, Or.inl hv⟩
    | some value =>
        by_contra hrefused
        refine hnot ⟨value, hv, fun hnil o' ho' => ?_⟩
        cases hnonempty : o'.nonempty with
        | false => rfl
        | true => exact absurd ⟨o', ho', Or.inr ⟨hnonempty, hnil ▸ hv⟩⟩ hrefused

theorem agree_iff : (name ∈ missingRequiredVars compose envContent ↔ Refused d compose envContent name) ↔
    Agree d compose envContent name := by
  rw [mem_missingRequiredVars, refused_iff]
  constructor
  · intro h
    exact ⟨fun hd hs => by tauto, fun hd hs => by tauto, fun hd hs => by tauto⟩
  · rintro ⟨hseen, hhidden, hfree⟩
    by_cases hd : Demanded d compose envContent name <;> by_cases hs : Seen compose name
    · have := hseen hd hs
      tauto
    · have := hhidden hd hs
      tauto
    · have := hfree hd hs
      tauto
    · tauto

end Main

end Yeah.Compose
