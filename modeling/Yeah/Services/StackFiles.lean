import Yeah.Deploy.EnvFile

namespace Yeah.Services

open Text Deploy

/-- What stands between the name of a reference and its closing brace. -/
inductive Form where
  | plain
  | orDefault (d : List Char)
  | ifUnset (d : List Char)
  deriving DecidableEq

namespace Form

def text : Form → List Char
  | plain => []
  | orDefault d => ':' :: '-' :: d
  | ifUnset d => '-' :: d

/-- The second group of the pattern. -/
def fallback : Form → Option (List Char)
  | plain => none
  | orDefault d | ifUnset d => some d

end Form

structure StackReference where
  name : List Char
  form : Form
  deriving DecidableEq

namespace StackReference

variable (r : StackReference)

def text : List Char := '$' :: '\x7b' :: (r.name ++ (r.form.text ++ ['\x7d']))

def Formed : Prop := isKey r.name = true ∧ ∀ d ∈ r.form.fallback, '\x7d' ∉ d

end StackReference

def closedBy (t : List Char) (form : List Char → Form) : Option Form :=
  if '\x7d' ∈ t then some (form (t.takeWhile (· ≠ '\x7d'))) else none

def matchForm : List Char → Option Form
  | '\x7d' :: _ => some .plain
  | ':' :: '-' :: t => closedBy t .orDefault
  | '-' :: t => closedBy t .ifUnset
  | _ => none

/-- `\$\{([A-Za-z_][A-Za-z0-9_]*)(?::?-([^}]*))?\}` at the start of a text. -/
def matchStackReference : List Char → Option StackReference
  | '$' :: '\x7b' :: t =>
      if isKey (t.takeWhile isKeyChar) then
        (matchForm (t.dropWhile isKeyChar)).map fun form => ⟨t.takeWhile isKeyChar, form⟩
      else none
  | _ => none

inductive StackPiece where
  | char (c : Char)
  | reference (r : StackReference)
  deriving DecidableEq

/-- The matches of the pattern with its `g` flag; the first `k` characters belong to a match before. -/
def stackPieces : Nat → List Char → List StackPiece
  | _, [] => []
  | k + 1, _ :: t => stackPieces k t
  | 0, c :: t =>
      match matchStackReference (c :: t) with
      | some r => .reference r :: stackPieces (r.text.length - 1) t
      | none => .char c :: stackPieces 0 t

/-- The names that an object has from `Object.prototype`. -/
def prototypeNames : List (List Char) :=
  ["constructor", "__defineGetter__", "__defineSetter__", "hasOwnProperty", "__lookupGetter__",
    "__lookupSetter__", "isPrototypeOf", "propertyIsEnumerable", "toString", "valueOf", "__proto__",
    "toLocaleString"].map String.toList

/-- How the engine writes the functions of `Object.prototype`: `function …() { [native code] }`, but for the blanks. -/
structure NativeFunctions where
  text : List Char → List Char
  spelled : ∀ name, "function".toList <+: text name
  closed : ∀ name, '\x7d' ∈ text name

abbrev Env := List Char → Option (List Char)

/-- `Object.fromEntries`: the last value of a name counts. -/
def fromEntries (entries : List EnvEntry) : Env :=
  defined (entries.map fun e => (e.key.toList, e.value.toList))

/-- The variables of a service, as a stack file is rendered with them. -/
def stackEnv (envContent : String) : Env := fromEntries (parseEnvContent envContent)

/-- `env[name]`, as text where it is no text. -/
def property (native : NativeFunctions) (env : Env) (name : List Char) : Option (List Char) :=
  match env name with
  | some value => some value
  | none =>
      if name = "__proto__".toList then some "[object Object]".toList
      else if name ∈ prototypeNames then some (native.text name)
      else none

/-- The function that `replace` calls. -/
def substitute (native : NativeFunctions) (env : Env) (r : StackReference) : List Char :=
  match (property native env r.name).filter (· ≠ []), r.form.fallback, property native env r.name with
  | some value, _, _ => value
  | none, some fallback, _ => fallback
  | none, none, some value => value
  | none, none, none => r.text

def StackPiece.render (f : StackReference → List Char) : StackPiece → List Char
  | char c => [c]
  | reference r => f r

def renderStackFile (native : NativeFunctions) (content : List Char) (env : Env) : List Char :=
  (stackPieces 0 content).flatMap (StackPiece.render (substitute native env))

/-- What the shell and Compose put in the place of a reference; a plain one without a value stays. -/
def shellText (env : Env) (r : StackReference) : List Char :=
  match r.form, env r.name with
  | .plain, some value => value
  | .plain, none => r.text
  | .orDefault d, some value => if value = [] then d else value
  | .ifUnset _, some value => value
  | .orDefault d, none | .ifUnset d, none => d

/-- From left to right, a reference wherever one starts, and single characters elsewhere. -/
inductive Reads : List Char → List StackPiece → Prop
  | nil : Reads [] []
  | reference {r : StackReference} {t : List Char} {ps : List StackPiece} (hr : r.Formed) (hrest : Reads t ps) :
      Reads (r.text ++ t) (.reference r :: ps)
  | char {c : Char} {t : List Char} {ps : List StackPiece}
      (hc : ∀ (r : StackReference) s, r.Formed → c :: t ≠ r.text ++ s) (hrest : Reads t ps) :
      Reads (c :: t) (.char c :: ps)

/-- An empty value has no default, or a default that an empty value gets too; a name without a value is none of the
language's own, or the default is the text that is found under it. -/
def Agrees (env : Env) (r : StackReference) : Prop :=
  match env r.name with
  | some value => value = [] → ∀ d, r.form = .ifUnset d → d = []
  | none => r.name ∈ prototypeNames → r.name = "__proto__".toList ∧ r.form.fallback = some "[object Object]".toList

section Pattern

variable {t s : List Char} {r : StackReference} {form : Form} {ps : List StackPiece}

theorem takeWhile_brace {d : List Char} (hd : '\x7d' ∉ d) (s : List Char) :
    (d ++ '\x7d' :: s).takeWhile (· ≠ '\x7d') = d := by
  refine takeWhile_span (fun a ha => ?_) fun c hc => by cases hc; decide
  rw [decide_eq_true_eq]
  rintro rfl
  exact hd ha

theorem closedBy_eq_some {f : List Char → Form} : closedBy t f = some form ↔
    ∃ d s, t = d ++ '\x7d' :: s ∧ '\x7d' ∉ d ∧ form = f d := by
  constructor
  · intro h
    by_cases hmem : '\x7d' ∈ t
    · obtain ⟨d, s, rfl, hd⟩ := List.eq_append_cons_of_mem hmem
      rw [closedBy, if_pos hmem, takeWhile_brace hd] at h
      exact ⟨d, s, rfl, hd, (Option.some_inj.1 h).symm⟩
    · rw [closedBy, if_neg hmem] at h
      cases h
  · rintro ⟨d, s, rfl, hd, rfl⟩
    rw [closedBy, if_pos (by simp), takeWhile_brace hd]

theorem matchForm_eq_some : matchForm t = some form ↔
    (∀ d ∈ form.fallback, '\x7d' ∉ d) ∧ ∃ s, t = form.text ++ '\x7d' :: s := by
  constructor
  · intro h
    unfold matchForm at h
    split at h
    · next s =>
        obtain rfl := Option.some_inj.1 h
        exact ⟨by simp [Form.fallback], s, rfl⟩
    · obtain ⟨d, s, rfl, hd, rfl⟩ := closedBy_eq_some.1 h
      exact ⟨by simpa [Form.fallback] using hd, s, rfl⟩
    · obtain ⟨d, s, rfl, hd, rfl⟩ := closedBy_eq_some.1 h
      exact ⟨by simpa [Form.fallback] using hd, s, rfl⟩
    · cases h
  · rintro ⟨hd, s, rfl⟩
    cases form with
    | plain => rfl
    | orDefault d => exact closedBy_eq_some.2 ⟨d, s, rfl, hd d rfl, rfl⟩
    | ifUnset d => exact closedBy_eq_some.2 ⟨d, s, rfl, hd d rfl, rfl⟩

theorem form_head (form : Form) (s : List Char) :
    ∀ c ∈ (form.text ++ '\x7d' :: s).head?, isKeyChar c = false := by
  cases form <;> exact fun c hc => by cases hc; decide

theorem isKey_all {name : List Char} (h : isKey name = true) : ∀ c ∈ name, isKeyChar c = true := by
  rw [isKey, Bool.and_eq_true, List.all_eq_true] at h
  exact h.2

theorem StackReference.text_append (r : StackReference) (s : List Char) :
    r.text ++ s = '$' :: '\x7b' :: (r.name ++ (r.form.text ++ '\x7d' :: s)) := by
  simp [StackReference.text]

theorem matchStackReference_eq_some :
    matchStackReference t = some r ↔ r.Formed ∧ ∃ s, t = r.text ++ s := by
  constructor
  · intro h
    unfold matchStackReference at h
    split at h
    · next u =>
        split at h
        · next hkey =>
            obtain ⟨form, hform, rfl⟩ := Option.map_eq_some_iff.1 h
            obtain ⟨hd, s, hs⟩ := matchForm_eq_some.1 hform
            refine ⟨⟨hkey, hd⟩, s, ?_⟩
            rw [StackReference.text_append, ← hs, List.takeWhile_append_dropWhile]
        · cases h
    · cases h
  · rintro ⟨⟨hkey, hd⟩, s, rfl⟩
    have htake : (r.name ++ (r.form.text ++ '\x7d' :: s)).takeWhile isKeyChar = r.name :=
      takeWhile_span (isKey_all hkey) (form_head r.form s)
    have hdrop : (r.name ++ (r.form.text ++ '\x7d' :: s)).dropWhile isKeyChar =
        r.form.text ++ '\x7d' :: s :=
      dropWhile_span (isKey_all hkey) (form_head r.form s)
    rw [StackReference.text_append, matchStackReference, htake, hdrop, if_pos hkey,
      matchForm_eq_some.2 ⟨hd, s, rfl⟩]
    rfl

theorem stackPieces_skip (u : List Char) : stackPieces u.length (u ++ t) = stackPieces 0 t := by
  induction u with
  | nil => rfl
  | cons c u ih => exact ih

theorem stackPieces_reference (hr : r.Formed) :
    stackPieces 0 (r.text ++ t) = .reference r :: stackPieces 0 t := by
  have hmatch : matchStackReference (r.text ++ t) = some r := matchStackReference_eq_some.2 ⟨hr, t, rfl⟩
  have hcons : r.text = '$' :: r.text.tail := rfl
  rw [hcons, List.cons_append] at hmatch ⊢
  rw [stackPieces, hmatch]
  have hlength : r.text.length - 1 = r.text.tail.length := by rw [List.length_tail]
  simp only [hlength, stackPieces_skip]

theorem stackPieces_char {c : Char} (hc : ∀ (r : StackReference) s, r.Formed → c :: t ≠ r.text ++ s) :
    stackPieces 0 (c :: t) = .char c :: stackPieces 0 t := by
  have hmatch : matchStackReference (c :: t) = none := by
    rw [Option.eq_none_iff_forall_ne_some]
    intro r hr
    obtain ⟨hformed, s, hs⟩ := matchStackReference_eq_some.1 hr
    exact hc r s hformed hs
  rw [stackPieces, hmatch]

/-- The matches of the pattern are the references of the text, and there is one way to read it. -/
theorem reads_iff : Reads t ps ↔ stackPieces 0 t = ps := by
  constructor
  · intro h
    induction h with
    | nil => rfl
    | reference hr _ ih => rw [stackPieces_reference hr, ih]
    | char hc _ ih => rw [stackPieces_char hc, ih]
  · rintro rfl
    induction hn : t.length using Nat.strongRecOn generalizing t with
    | ind n ih =>
        subst hn
        cases t with
        | nil => exact .nil
        | cons c t =>
            by_cases hstart : ∃ r : StackReference, r.Formed ∧ ∃ s, c :: t = r.text ++ s
            · obtain ⟨r, hr, s, hs⟩ := hstart
              rw [hs, stackPieces_reference hr]
              refine .reference hr (ih s.length ?_ rfl)
              rw [hs, StackReference.text_append]
              simp only [List.length_cons, List.length_append]
              omega
            · have hc : ∀ (r : StackReference) s, r.Formed → c :: t ≠ r.text ++ s :=
                fun r s hr hs => hstart ⟨r, hr, s, hs⟩
              rw [stackPieces_char hc]
              exact .char hc (ih t.length (by simp) rfl)

theorem Reads.formed (h : Reads t ps) (hr : .reference r ∈ ps) : r.Formed := by
  induction h with
  | nil => cases hr
  | reference hformed _ ih =>
      rcases List.mem_cons.1 hr with he | hr
      · cases he
        exact hformed
      · exact ih hr
  | char _ _ ih =>
      rcases List.mem_cons.1 hr with he | hr
      · cases he
      · exact ih hr

end Pattern

section Value

variable {native : NativeFunctions} {env : Env} {r : StackReference} {value : List Char}

theorem substitute_of_value (h : property native env r.name = some value) (hne : value ≠ []) :
    substitute native env r = value := by
  rw [substitute, h, Option.filter_some, if_pos (by simpa using hne)]

theorem substitute_of_empty (h : property native env r.name = some []) :
    substitute native env r = r.form.fallback.getD [] := by
  rw [substitute, h]
  cases r.form <;> rfl

theorem shellText_of_value (h : env r.name = some value) (hne : value ≠ []) :
    shellText env r = value := by
  rw [shellText, h]
  cases r.form with
  | plain | ifUnset d => rfl
  | orDefault d => exact if_neg hne

theorem property_of_own (h : env r.name = some value) : property native env r.name = some value := by
  rw [property, h]

theorem native_ne_nil (native : NativeFunctions) (name : List Char) : native.text name ≠ [] := by
  intro he
  have h := native.spelled name
  rw [he] at h
  revert h
  decide

/-- A function is written as no reference is, and has a brace as no default has. -/
theorem native_ne_shellText (hr : r.Formed) (h : env r.name = none) :
    native.text r.name ≠ shellText env r := by
  intro he
  cases hform : r.form with
  | plain =>
      obtain ⟨u, hu⟩ := native.spelled r.name
      simp only [shellText, hform, h] at he
      rw [← hu, StackReference.text] at he
      cases he
  | orDefault d | ifUnset d =>
      simp only [shellText, hform, h] at he
      exact hr.2 d (by rw [hform]; rfl) (he ▸ native.closed r.name)

theorem object_eq_shellText (h : env r.name = none) :
    "[object Object]".toList = shellText env r ↔ r.form.fallback = some "[object Object]".toList := by
  cases hform : r.form with
  | plain =>
      simp only [shellText, hform, h, Form.fallback]
      exact iff_of_false (fun he => by cases he) (fun he => by cases he)
  | orDefault d | ifUnset d =>
      simp only [shellText, hform, h, Form.fallback, Option.some_inj]
      exact eq_comm

theorem substitute_of_none (h : property native env r.name = none) (henv : env r.name = none) :
    substitute native env r = shellText env r := by
  rw [substitute, h, shellText, henv]
  cases r.form <;> rfl

/-- A reference gets what the shell puts there exactly if its name and its form agree with the variables. -/
theorem substitute_iff (hr : r.Formed) : substitute native env r = shellText env r ↔ Agrees env r := by
  rw [Agrees]
  cases henv : env r.name with
  | some value =>
      by_cases hvalue : value = []
      · subst hvalue
        rw [substitute_of_empty (property_of_own henv), shellText, henv]
        cases r.form with
        | plain => simp [Form.fallback]
        | orDefault d => simp [Form.fallback]
        | ifUnset d => simp [Form.fallback]
      · rw [substitute_of_value (property_of_own henv) hvalue, shellText_of_value henv hvalue]
        exact iff_of_true rfl fun he => absurd he hvalue
  | none =>
      by_cases hproto : r.name = "__proto__".toList
      · have hproperty : property native env r.name = some "[object Object]".toList := by
          rw [property, henv]
          exact if_pos hproto
        rw [substitute_of_value hproperty (by decide), object_eq_shellText henv, hproto]
        exact ⟨fun h _ => ⟨rfl, h⟩, fun h => (h (by decide)).2⟩
      · by_cases hmem : r.name ∈ prototypeNames
        · have hproperty : property native env r.name = some (native.text r.name) := by
            simp only [property, henv, hproto, hmem, if_true, if_false]
          rw [substitute_of_value hproperty (native_ne_nil native _)]
          exact iff_of_false (native_ne_shellText hr henv) fun h => hproto (h hmem).1
        · have hproperty : property native env r.name = none := by
            simp only [property, henv, hproto, hmem, if_false]
          exact iff_of_true (substitute_of_none hproperty henv) fun h => absurd h hmem

end Value

/-- A stack file is read in one way, its references are replaced once, all else stays as it is; a reference is replaced
as the shell does exactly if it agrees with the variables. -/
theorem renderStackFile_iff (native : NativeFunctions) (content : List Char) (envContent : String) :
    ∃ pieces, (∀ ps, Reads content ps ↔ ps = pieces) ∧
      renderStackFile native content (stackEnv envContent) =
        pieces.flatMap (StackPiece.render (substitute native (stackEnv envContent))) ∧
      (∀ r, .reference r ∈ pieces → (substitute native (stackEnv envContent) r =
        shellText (stackEnv envContent) r ↔ Agrees (stackEnv envContent) r)) ∧
      ((∀ r, .reference r ∈ pieces → Agrees (stackEnv envContent) r) →
        renderStackFile native content (stackEnv envContent) =
          pieces.flatMap (StackPiece.render (shellText (stackEnv envContent)))) := by
  have hread : Reads content (stackPieces 0 content) := reads_iff.2 rfl
  refine ⟨stackPieces 0 content, fun ps => reads_iff.trans eq_comm, rfl,
    fun r hr => substitute_iff (hread.formed hr), fun h => List.flatMap_congr fun p hp => ?_⟩
  cases p with
  | char c => rfl
  | reference r => exact (substitute_iff (hread.formed hp)).2 (h r hp)

/-- The functions as the engine of the panel writes them. -/
def engineFunctions : NativeFunctions where
  text name := "function ".toList ++ name ++ "() \x7b\n    [native code]\n\x7d".toList
  spelled name := by
    rw [List.append_assoc]
    exact List.IsPrefix.trans ⟨[' '], by decide⟩ (List.prefix_append _ _)
  closed name := List.mem_append_right _ (by decide)

theorem renderStackFile_password : ∃ pieces,
    Reads "p=$\x7bP\x7d u=$\x7bU:-root\x7d".toList pieces ∧
      renderStackFile engineFunctions "p=$\x7bP\x7d u=$\x7bU:-root\x7d".toList (stackEnv "P=s3cret") =
        pieces.flatMap (StackPiece.render (shellText (stackEnv "P=s3cret"))) := by
  obtain ⟨pieces, hread, -, -, hall⟩ :=
    renderStackFile_iff engineFunctions "p=$\x7bP\x7d u=$\x7bU:-root\x7d".toList "P=s3cret"
  refine ⟨pieces, (hread pieces).2 rfl, hall fun r hr => ?_⟩
  have hpieces : pieces = [.char 'p', .char '=', .reference ⟨['P'], .plain⟩, .char ' ', .char 'u', .char '=',
      .reference ⟨['U'], .orDefault "root".toList⟩] :=
    ((hread _).1 (reads_iff.2 (by decide))).symm
  have hrefs : r = ⟨['P'], .plain⟩ ∨ r = ⟨['U'], .orDefault "root".toList⟩ := by simpa [hpieces] using hr
  rcases hrefs with rfl | rfl
  · have henv : stackEnv "P=s3cret" ['P'] = some "s3cret".toList := by decide
    simp [Agrees, henv]
  · have henv : stackEnv "P=s3cret" ['U'] = none := by decide
    have hname : ['U'] ∉ prototypeNames := by decide
    simp [Agrees, henv, hname]

/-- A variable set to nothing gets the default, and the names of the language's own are replaced by its functions. -/
theorem default_of_empty :
    stackPieces 0 "$\x7bX-d\x7d$\x7btoString\x7d".toList =
      [.reference ⟨['X'], .ifUnset ['d']⟩, .reference ⟨"toString".toList, .plain⟩] ∧
    renderStackFile engineFunctions "$\x7bX-d\x7d$\x7btoString\x7d".toList (stackEnv "X=") ≠
      shellText (stackEnv "X=") ⟨['X'], .ifUnset ['d']⟩ ++
        shellText (stackEnv "X=") ⟨"toString".toList, .plain⟩ ∧
    substitute engineFunctions (stackEnv "X=") ⟨['X'], .ifUnset ['d']⟩ ≠
      shellText (stackEnv "X=") ⟨['X'], .ifUnset ['d']⟩ ∧
    substitute engineFunctions (stackEnv "X=") ⟨"toString".toList, .plain⟩ ≠
      shellText (stackEnv "X=") ⟨"toString".toList, .plain⟩ := by
  decide

end Yeah.Services
