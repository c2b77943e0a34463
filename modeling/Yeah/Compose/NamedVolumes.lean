import Yeah.Compose.Dotenv
import Yeah.Compose.Rows

namespace Yeah.Compose.NamedVolumes

open Deploy Rows Tables Text

/-- A value of a YAML document; of a number, whether it counts as true. -/
inductive Value
  | null
  | bool (b : Bool)
  | number (truthy : Bool)
  | text (s : String)
  | seq (items : List Value)
  | object (fields : List (String × Value))

def Value.get (key : String) : Value → Option Value
  | .object fields => (fields.find? fun e => e.1 = key).map (·.2)
  | _ => none

mutual

/-- The value as the checks of a compose file see it. -/
def Value.doc : Value → Doc
  | .text s => .text s
  | .object fields => .object (docFields fields)
  | .null | .bool _ | .number _ | .seq _ => .other

def docFields : List (String × Value) → List (String × Doc)
  | [] => []
  | e :: es => docField e :: docFields es

def docField : String × Value → String × Doc
  | (key, value) => (key, value.doc)

end

/-- An object has a key once. -/
structure Parser where
  parse : String → Except String Value
  distinct : ∀ text document volumes, parse text = .ok document →
    document.get "volumes" = some (.object volumes) → (volumes.map Prod.fst).Nodup

structure StackVolume where
  key : String
  /-- The name Docker gives it on the server. -/
  dockerName : String
  deriving DecidableEq

def isTruthy : Option Value → Bool
  | none | some .null => false
  | some (.bool b) => b
  | some (.number truthy) => truthy
  | some (.text s) => s ≠ ""
  | some _ => true

def explicitName (settings : Value) : Option String :=
  match settings.get "name" with
  | some (.text name) => if trim name ≠ "" then some (trim name) else none
  | _ => none

def nameOf (project key : String) (settings : Value) : String :=
  (explicitName settings).getD (if isTruthy (settings.get "external") then key else project ++ "_" ++ key)

def composeNamedVolumes (p : Parser) (content project : String) : List StackVolume :=
  match p.parse content with
  | .error _ => []
  | .ok document =>
      match document.get "volumes" with
      | some (.object volumes) =>
          (volumes.filter fun e => isValidComposeService e.1).map fun e => ⟨e.1, nameOf project e.1 e.2⟩
      | _ => []

/-! ### What Compose does -/

/-- What is taken from Compose: its reader of env files, how a text is interpolated, which texts are booleans, and
whether it takes a document with these variables. -/
structure Composer where
  dotenv : Dotenv
  substitute : (List Char → Option (List Char)) → List Char → Option (List Char)
  substitute_plain : ∀ vars text, '$' ∉ text → substitute vars text = some text
  boolean : List Char → Option Bool
  boolean_nil : boolean [] ≠ some true
  accepts : (List Char → Option (List Char)) → Value → Bool

/-- `[a-zA-Z0-9][a-zA-Z0-9_.-]+`, the names of volumes. -/
def isVolumeName (name : String) : Bool :=
  name.toList.head?.any Char.isAlphanum && 2 ≤ name.toList.length &&
    name.toList.all fun c => c.isAlphanum || c ∈ ['.', '_', '-']

namespace Composer

variable (c : Composer) (vars : List Char → Option (List Char))

def interpolated (s : String) : Option String := (c.substitute vars s.toList).map String.ofList

def named : Option Value → Option (Option String)
  | none | some .null => some none
  | some (.text name) => (c.interpolated vars name).map some
  | some _ => none

/-- The setting `external`, which is a boolean or, as it was once written, has the name. -/
def external : Option Value → Option (Bool × Option String)
  | none | some .null => some (false, none)
  | some (.bool b) => some (b, none)
  | some (.text s) => ((c.substitute vars s.toList).bind c.boolean).map (·, none)
  | some (.object fields) => (c.named vars ((Value.object fields).get "name")).map (true, ·)
  | some _ => none

/-- The name of a volume: the one that is set, or the key, with the project before it unless it is external. -/
def chosen (project key : String) : Option String → Bool × Option String → Option String
  | some name, (_, some name') => if name = name' then some name else none
  | some name, (_, none) => some name
  | none, (_, some name') => some name'
  | none, (isExternal, none) => some (if isExternal then key else project ++ "_" ++ key)

def realName (project key : String) : Value → Option String
  | .null => some (project ++ "_" ++ key)
  | .object fields =>
      (c.named vars ((Value.object fields).get "name")).bind fun name =>
        (c.external vars ((Value.object fields).get "external")).bind fun external => chosen project key name external
  | _ => none

def created (project : String) (e : String × Value) : Option String :=
  (c.realName vars project e.1 e.2).filter isVolumeName

/-- Compose takes the file, with these variables and volumes. A variable of the process goes before one of the file. -/
def Takes (p : Parser) (environment : List Char → Option (List Char))
    (content envContent project : String)
    (volumes : List (String × Value)) : Prop :=
  ∃ document defs, p.parse content = .ok document ∧ c.dotenv.read environment envContent = some defs ∧
    vars = (fun name => (environment name).or (defined defs name)) ∧ c.accepts vars document = true ∧
    document.get "volumes" = some (.object volumes) ∧
    ∀ e ∈ volumes, (c.realName vars project e.1 e.2).isSome = true

def KnownByName (p : Parser) (environment : List Char → Option (List Char))
    (content envContent project : String) :
    Prop :=
  ∀ vars volumes, c.Takes vars p environment content envContent project volumes → ∀ e ∈ volumes, ∀ name,
    c.created vars project e = some name →
      ((composeNamedVolumes p content project).find? fun v => v.key = e.1).map StackVolume.dockerName = some name

/-- The settings say the name without Compose's help. -/
def Straight (key : String) (settings : Value) : Prop :=
  match settings.get "name" with
  | some (.text name) => '$' ∉ name.toList
  | _ =>
      match settings.get "external" with
      | some (.text s) => s = "" ∨ (c.substitute vars s.toList).bind c.boolean ≠ some false
      | some (.object fields) =>
          ∀ name, (Value.object fields).get "name" = some (.text name) →
            c.interpolated vars name = some key
      | _ => True

def plain : Composer where
  dotenv := .plain
  substitute := Dotenv.plain.substitute
  substitute_plain := Dotenv.plain.substitute_plain
  boolean t := if t = "true".toList then some true else if t = "false".toList then some false else none
  boolean_nil := by decide
  accepts _ _ := true

end Composer

section Names

variable {c : Composer} {vars : List Char → Option (List Char)} {project key name : String} {settings : Value}

theorem isVolumeName_char (h : isVolumeName name = true) {a : Char} (ha : a ∈ name.toList) :
    a ≠ '$' ∧ isSpace a.toNat = false := by
  obtain ⟨-, hall⟩ := Bool.and_eq_true_iff.1 h
  have hchar := List.all_eq_true.1 hall a ha
  rw [Bool.or_eq_true, decide_eq_true_eq] at hchar
  rcases hchar with halnum | hmem
  · have hrange := Yaml.toNat_of_alphanum halnum
    refine ⟨?_, isSpace_of_range ⟨by omega, by omega⟩⟩
    rintro rfl
    exact absurd hrange (by decide)
  · simp only [List.mem_cons, List.not_mem_nil, or_false] at hmem
    rcases hmem with rfl | rfl | rfl <;> decide

theorem isVolumeName_ne_empty (h : isVolumeName name = true) : name ≠ "" := by
  rintro rfl
  cases h

theorem explicitName_plain {t : String} (hset : settings.get "name" = some (.text t))
    (ht : '$' ∉ t.toList)
    (hname : c.interpolated vars t = some name) (hvolume : isVolumeName name = true) :
    explicitName settings = some name := by
  rw [Composer.interpolated, c.substitute_plain vars _ ht, Option.map_some, String.ofList_toList] at hname
  obtain rfl := Option.some_inj.1 hname
  have htrim : trim t = t := trim_of_none fun a ha => (isVolumeName_char hvolume ha).2
  rw [explicitName, hset]
  simp only [htrim]
  exact if_pos (isVolumeName_ne_empty hvolume)

theorem explicitName_dollar {t : String} (hset : settings.get "name" = some (.text t))
    (ht : '$' ∈ t.toList) :
    ∃ name, explicitName settings = some name ∧ '$' ∈ name.toList := by
  have hmem : '$' ∈ (trim t).toList := by
    rw [trim, String.toList_ofList]
    exact mem_strip_of_not (by decide) ht
  have hne : trim t ≠ "" := by
    intro he
    rw [he] at hmem
    cases hmem
  refine ⟨trim t, ?_, hmem⟩
  rw [explicitName, hset]
  exact if_pos hne

theorem nameOf_text {t : String} (hset : settings.get "name" = some (.text t))
    (hname : c.interpolated vars t = some name) (hvolume : isVolumeName name = true) :
    nameOf project key settings = name ↔ '$' ∉ t.toList := by
  constructor
  · intro h ht
    obtain ⟨name', hname', hmem⟩ := explicitName_dollar hset ht
    rw [nameOf, hname', Option.getD_some] at h
    exact (isVolumeName_char hvolume (h ▸ hmem)).1 rfl
  · intro ht
    rw [nameOf, explicitName_plain hset ht hname hvolume, Option.getD_some]

theorem key_ne_prefixed (project key : String) : key ≠ project ++ "_" ++ key := by
  intro h
  have hlength := congrArg String.length h
  simp only [String.length_append] at hlength
  have hone : "_".length = 1 := rfl
  omega

theorem named_none {v : Option Value} (h : c.named vars v = some none) : v = none ∨ v = some .null := by
  cases v with
  | none => exact Or.inl rfl
  | some v =>
      cases v with
      | null => exact Or.inr rfl
      | text t =>
          obtain ⟨_, _, he⟩ := Option.map_eq_some_iff.1 h
          cases he
      | bool | number | seq | object => cases h

theorem named_some {v : Option Value} (h : c.named vars v = some (some name)) :
    ∃ t, v = some (.text t) ∧ c.interpolated vars t = some name := by
  cases v with
  | none => cases h
  | some v =>
      cases v with
      | text t =>
          obtain ⟨_, ht, he⟩ := Option.map_eq_some_iff.1 h
          cases he
          exact ⟨t, rfl, ht⟩
      | null | bool | number | seq | object => cases h

theorem chosen_some {n : String} {external : Bool × Option String}
    (h : Composer.chosen project key (some n) external = some name) : n = name := by
  obtain ⟨isExternal, n' | n'⟩ := external
  · exact Option.some_inj.1 h
  · exact Option.some_inj.1 (Option.ite_none_right_eq_some.1 h).2

theorem nameOf_unset (hunset : settings.get "name" = none ∨ settings.get "name" = some .null) :
    nameOf project key settings = if isTruthy (settings.get "external") then key else project ++
      "_" ++ key := by
  have hexplicit : explicitName settings = none := by
    rcases hunset with h | h <;> rw [explicitName, h]
  rw [nameOf, hexplicit, Option.getD_none]

theorem straight_unset (hunset : settings.get "name" = none ∨ settings.get "name" = some .null) :
    c.Straight vars key settings ↔
      match settings.get "external" with
      | some (.text s) => s = "" ∨ (c.substitute vars s.toList).bind c.boolean ≠ some false
      | some (.object fields) =>
          ∀ name, (Value.object fields).get "name" = some (.text name) →
            c.interpolated vars name = some key
      | _ => True := by
  rcases hunset with h | h <;> rw [Composer.Straight, h]

/-- Any text counts as true but the empty one, which Compose never takes for true. -/
theorem isTruthy_text {t : String} {b : Bool}
    (hb : (c.substitute vars t.toList).bind c.boolean = some b) :
    (if isTruthy (some (.text t)) then key else project ++ "_" ++ key) =
        (if b then key else project ++ "_" ++ key) ↔ t = "" ∨ b = true := by
  by_cases ht : t = ""
  · subst ht
    have hfalse : b = false := by
      cases b with
      | false => rfl
      | true =>
          rw [c.substitute_plain vars _ (by decide)] at hb
          exact absurd hb c.boolean_nil
    rw [hfalse]
    exact iff_of_true rfl (Or.inl rfl)
  · cases b with
    | true => simp [isTruthy, ht]
    | false => simp [isTruthy, ht, key_ne_prefixed]

theorem chosen_object {fields : List (String × Value)} {n : Option String}
    (hn : c.named vars ((Value.object fields).get "name") = some n)
    (hname : Composer.chosen project key none (true, n) = some name) :
    key = name ↔
      ∀ t, (Value.object fields).get "name" = some (.text t) → c.interpolated vars t = some key := by
  cases n with
  | none =>
      refine iff_of_true (Option.some_inj.1 hname) fun t ht => ?_
      rcases named_none hn with h | h <;> rw [h] at ht <;> cases ht
  | some n =>
      obtain rfl := Option.some_inj.1 hname
      obtain ⟨t, ht, hinterpolated⟩ := named_some hn
      constructor
      · intro hkey t' ht'
        rw [ht] at ht'
        cases ht'
        rw [hinterpolated]
        exact congrArg some hkey.symm
      · intro h
        have hkey := h t ht
        rw [hinterpolated] at hkey
        exact (Option.some_inj.1 hkey).symm

theorem nameOf_external {external : Bool × Option String}
    (hunset : settings.get "name" = none ∨ settings.get "name" = some .null)
    (hexternal : c.external vars (settings.get "external") = some external)
    (hname : Composer.chosen project key none external = some name) :
    nameOf project key settings = name ↔ c.Straight vars key settings := by
  rw [nameOf_unset hunset, straight_unset hunset]
  cases hw : settings.get "external" with
  | none =>
      rw [hw] at hexternal
      cases hexternal
      exact iff_of_true (Option.some_inj.1 hname) trivial
  | some w =>
      rw [hw] at hexternal
      cases w with
      | null | bool b =>
          cases hexternal
          exact iff_of_true (Option.some_inj.1 hname) trivial
      | number | seq => cases hexternal
      | text t =>
          obtain ⟨b, hb, rfl⟩ := Option.map_eq_some_iff.1 hexternal
          obtain rfl := Option.some_inj.1 hname
          simp only [isTruthy_text hb, hb, ne_eq, Option.some_inj, Bool.not_eq_false]
      | object fields =>
          obtain ⟨n, hn, rfl⟩ := Option.map_eq_some_iff.1 hexternal
          exact chosen_object hn hname

/-- A volume that there is on the server is known by its name exactly if the settings say it straight. -/
theorem nameOf_iff (h : c.created vars project (key, settings) = some name) :
    nameOf project key settings = name ↔ c.Straight vars key settings := by
  obtain ⟨hreal, hvolume⟩ := Option.filter_eq_some_iff.1 h
  cases settings with
  | null => exact iff_of_true (Option.some_inj.1 hreal) trivial
  | object fields =>
      obtain ⟨n, hn, hrest⟩ := Option.bind_eq_some_iff.1 hreal
      obtain ⟨external, hexternal, hchosen⟩ := Option.bind_eq_some_iff.1 hrest
      cases n with
      | none => exact nameOf_external (named_none hn) hexternal hchosen
      | some n =>
          obtain rfl := chosen_some hchosen
          obtain ⟨t, ht, hinterpolated⟩ := named_some hn
          rw [nameOf_text ht hinterpolated hvolume, Composer.Straight, ht]
  | bool | number | text | seq => cases hreal

end Names

section Listing

variable {p : Parser} {content project : String} {document : Value} {volumes : List (String × Value)}

theorem find_composeNamedVolumes (hparse : p.parse content = .ok document)
    (hget : document.get "volumes" = some (.object volumes)) {e : String × Value} (he : e ∈ volumes) :
    (composeNamedVolumes p content project).find? (fun v => v.key = e.1) =
      if isValidComposeService e.1 = true then some ⟨e.1, nameOf project e.1 e.2⟩ else none := by
  have hlist : composeNamedVolumes p content project =
      (volumes.filter fun e => isValidComposeService e.1).map fun e => ⟨e.1, nameOf project e.1 e.2⟩ := by
    rw [composeNamedVolumes, hparse]
    simp only [hget]
  have hdistinct : ((composeNamedVolumes p content project).map StackVolume.key).Nodup := by
    rw [hlist, List.map_map]
    exact (p.distinct content document volumes hparse hget).sublist (List.filter_sublist.map _)
  split
  · next hvalid =>
      have hmem : (⟨e.1, nameOf project e.1 e.2⟩ : StackVolume) ∈ composeNamedVolumes p content project := by
        rw [hlist]
        exact List.mem_map.2 ⟨e, List.mem_filter.2 ⟨he, hvalid⟩, rfl⟩
      exact find?_key hdistinct hmem
  · next hinvalid =>
      refine List.find?_eq_none.2 fun v hv hkey => hinvalid ?_
      rw [hlist] at hv
      obtain ⟨e', he', rfl⟩ := List.mem_map.1 hv
      rw [← of_decide_eq_true hkey]
      exact (List.mem_filter.1 he').2

/-- Each volume is known by its real name if and only if, of those that Compose creates or finds on the server, the key
has the form of a service's name and the settings say the name straight. -/
theorem composeNamedVolumes_iff (c : Composer) (p : Parser) (environment : List Char → Option (List Char))
    (content envContent project : String) :
    c.KnownByName p environment content envContent project ↔
      ∀ vars volumes, c.Takes vars p environment content envContent project volumes → ∀ e ∈ volumes,
        (c.created vars project e).isSome = true → isValidComposeService e.1 = true ∧
            c.Straight vars e.1 e.2 := by
  refine forall_congr' fun vars => forall_congr' fun volumes => forall_congr' fun htakes =>
    forall_congr' fun e => forall_congr' fun he => ?_
  obtain ⟨document, defs, hparse, -, -, -, hget, -⟩ := htakes
  rw [find_composeNamedVolumes hparse hget he]
  constructor
  · intro h hcreated
    obtain ⟨name, hname⟩ := Option.isSome_iff_exists.1 hcreated
    have hfound := h name hname
    split at hfound
    · next hvalid => exact ⟨hvalid, (nameOf_iff hname).1 (Option.some_inj.1 hfound)⟩
    · cases hfound
  · intro h name hname
    obtain ⟨hvalid, hstraight⟩ := h (by rw [hname]; rfl)
    rw [if_pos hvalid, Option.map_some, (nameOf_iff hname).2 hstraight]

def stackText : String :=
  "services:\n  db:\n    image: postgres\nvolumes:\n  data:\n    name: $\x7bSTACK\x7d-data\n  files:\n    external: \"false\"\n"

def stackVolumes : List (String × Value) :=
  [("data", .object [("name", .text "$\x7bSTACK\x7d-data")]), ("files", .object [("external", .text "false")])]

def stackDocument : Value :=
  .object [("services", .object [("db", .object [("image", .text "postgres")])]), ("volumes", .object stackVolumes)]

def blog (name : List Char) : Option (List Char) :=
  (none : Option (List Char)).or (defined [("STACK".toList, "blog".toList)] name)

def stackParser : Parser where
  parse text := if text = stackText then .ok stackDocument else .error "syntax error"
  distinct text document volumes hparse hget := by
    have hdocument : stackDocument = document := by
      split at hparse
      · exact Except.ok.inj hparse
      · cases hparse
    subst hdocument
    cases hget
    decide

/-- A name with a variable, and a text for a boolean. -/
theorem interpolated_name :
    parseComposeStack (fun text => (stackParser.parse text).map Value.doc) stackText =
        .ok [("db", .object [("image", .text "postgres")])] ∧
      stackVolumes.map (Composer.plain.created blog "yeah-svc-1") = [some "blog-data", some "yeah-svc-1_files"] ∧
      (composeNamedVolumes stackParser stackText "yeah-svc-1").map StackVolume.dockerName =
        ["$\x7bSTACK\x7d-data", "files"] ∧
      ¬ Composer.plain.KnownByName stackParser (fun _ => none) stackText "STACK=blog" "yeah-svc-1" := by
  refine ⟨rfl, by decide +kernel, by decide +kernel, fun h => ?_⟩
  have hread : Composer.plain.dotenv.read (fun _ => none) "STACK=blog" =
      some [("STACK".toList, "blog".toList)] := by
    decide +kernel
  have hreal : ∀ e ∈ stackVolumes, (Composer.plain.realName blog "yeah-svc-1" e.1 e.2).isSome = true := by
    decide +kernel
  have htakes : Composer.plain.Takes blog stackParser (fun _ => none) stackText "STACK=blog" "yeah-svc-1" stackVolumes :=
    ⟨stackDocument, _, rfl, hread, rfl, rfl, rfl, hreal⟩
  have hfound := h blog stackVolumes htakes _ List.mem_cons_self "blog-data" (by decide +kernel)
  revert hfound
  decide +kernel

end Listing

end Yeah.Compose.NamedVolumes
