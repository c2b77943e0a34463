import Yeah.Compose.Dotenv
import Mathlib.Algebra.Order.BigOperators.Group.List
import Mathlib.Algebra.Order.Group.Nat
import Mathlib.Data.List.Perm.Subperm

namespace Yeah.Compose

open Deploy Text

/-- Every variable, build-time ones included. -/
def composeEnvFile (entries : List EnvEntry) : String :=
  if entries.length > 0 then "\n".intercalate (entries.map fun e => e.key ++ "=" ++ e.value) ++
    "\n" else ""

/-- Whatever is set in Compose's process and at docker's client, both define the same variables. -/
def SameVariables (d : Dotenv) (entries : List EnvEntry) : Prop :=
  ∀ environment client, ∃ defs defs', d.read environment (composeEnvFile entries) = some defs ∧
    readEnvFile client (renderRuntimeEnv entries) = some defs' ∧
      ∀ key, defined defs key = defined defs' key

/-- A value that Compose takes as it stands. -/
structure Plain (value : List Char) : Prop where
  dollar : '$' ∉ value
  head : ∀ c ∈ value.head?, isInlineSpace c = false ∧ c ≠ '\'' ∧ c ≠ '"'
  comment : ¬ [' ', '#'] <:+: value
  last : ∀ c ∈ value.getLast?, isGoSpace c = false

/-- An entry that both readers take as it stands. -/
structure Common (e : EnvEntry) : Prop where
  plain : Plain e.value.toList
  short : bytes (lineOf e) ≤ maxLineBytes

section Size

/-- What a definition without line feeds takes in a file. -/
def weight (defs : List (List Char × List Char)) : Nat :=
  (defs.map fun p => if '\n' ∈ p.2 then 0 else p.1.length + p.2.length + 2).sum

def Stage.pending : Stage → Nat
  | .start | .comment => 0
  | .key read => read.length
  | .value name => name.length + 1
  | .bare name read => name.length + 1 + read.length
  | .quoted _ name read escaped => name.length + 1 + read.length + escaped.toNat

/-- The characters that a definition or a begun one is made of. -/
def Reading.size (r : Reading) : Nat := weight r.defs + r.stage.pending

@[simp] theorem weight_append (defs defs' : List (List Char × List Char)) :
    weight (defs ++ defs') = weight defs + weight defs' := by
  simp [weight]

theorem weight_singleton (key : List Char) {value : List Char} (h : '\n' ∉ value) :
    weight [(key, value)] = key.length + value.length + 2 := by
  simp [weight, h]

theorem weight_singleton_le (key value : List Char) :
    weight [(key, value)] ≤ key.length + value.length + 2 := by
  simp only [weight, List.map_cons, List.map_nil, List.sum_cons, List.sum_nil, Nat.add_zero]
  split_ifs <;> omega

theorem cutComment_isPrefix (read : List Char) : cutComment read <+: read := by
  fun_induction cutComment read with
  | case1 => exact List.nil_prefix
  | case2 c cs _ ih => exact List.cons_prefix_cons.2 ⟨rfl, ih⟩
  | case3 => exact List.nil_prefix

theorem bareText_isPrefix (read : List Char) : bareText read <+: read :=
  (List.rdropWhile_prefix _ _).trans (cutComment_isPrefix read)

theorem length_keyOf_le (read : List Char) : (keyOf read).length ≤ read.length := by
  have hexport : (dropExport read).length ≤ read.length := by
    rw [dropExport]
    split_ifs
    · exact Nat.le_trans (List.dropWhile_sublist _).length_le (List.drop_sublist 6 read).length_le
    · exact Nat.le_refl _
  exact Nat.le_trans (List.rdropWhile_prefix _ _).length_le hexport

variable (d : Dotenv) {r r' : Reading} {key read : List Char} {c : Char}

def feeds : List Char → Option (List Char) := fun _ => some ['\n']

theorem length_expand_le {defs : List (List Char × List Char)} {text value : List Char}
    (h : d.expand feeds defs text = some value) :
    value.length ≤ text.length := by
  by_cases hdollar : '$' ∈ text
  · exact Nat.le_of_lt (d.substitute_short '\n' text value hdollar h)
  · rw [Dotenv.expand, d.substitute_plain _ text hdollar] at h
    rw [Option.some_inj.1 h]

theorem size_define {value : Option (List Char)} {n : Nat} (hvalue : ∀ v, value = some v → v.length ≤ n)
    (h : Dotenv.define r key value = some r') : r'.size ≤ weight r.defs + key.length + n + 2 := by
  obtain ⟨v, hv, rfl⟩ := Option.map_eq_some_iff.1 h
  have hn := hvalue v hv
  have hsingle := weight_singleton_le key v
  simp only [Reading.size, Stage.pending, weight_append]
  omega

theorem size_inherit : (Dotenv.inherit feeds r key).size = weight r.defs := by
  simp [Dotenv.inherit, feeds, Reading.size, Stage.pending, weight]

theorem size_readName (h : d.readName feeds r read c = some r') :
    r'.size ≤ weight r.defs + read.length + 1 := by
  rw [Dotenv.readName] at h
  split_ifs at h
  · cases h
    simp [Reading.size, Stage.pending]
    omega
  · cases h
    have hkey := length_keyOf_le read
    simp only [Reading.size, Stage.pending]
    omega
  · cases h
    rw [size_inherit]
    omega
  · cases h
    simp [Reading.size, Stage.pending]
    omega

theorem size_readBare (h : d.readBare feeds r key read c = some r') :
    r'.size ≤ weight r.defs + key.length + read.length + 2 := by
  rw [Dotenv.readBare] at h
  split_ifs at h
  · exact size_define (fun v hv => Nat.le_trans (length_expand_le d hv) ((bareText_isPrefix read).length_le)) h
  · cases h
    simp [Reading.size, Stage.pending]
    omega

theorem size_readQuoted {quote : Char} {escaped : Bool}
    (h : d.readQuoted feeds r quote key read escaped c = some r') :
    r'.size ≤ weight r.defs + key.length + read.length + escaped.toNat + 2 := by
  rw [Dotenv.readQuoted] at h
  cases escaped with
  | false =>
      rw [if_neg Bool.false_ne_true, if_neg Bool.false_ne_true] at h
      split_ifs at h with hquote hback
      · cases h
        simp [Reading.size, Stage.pending]
        omega
      · cases h
        simp [Reading.size, Stage.pending]
        omega
      · exact size_define (fun v hv => Nat.le_trans (length_expand_le d hv) (d.unescape_short read)) h
      · exact size_define (fun v hv => by rw [Option.some_inj.1 hv]) h
  | true =>
      rw [if_pos rfl, if_pos rfl] at h
      split_ifs at h
      · cases h
        simp [Reading.size, Stage.pending]
        omega
      · cases h
        simp [Reading.size, Stage.pending]
        omega

/-- A step takes in one character. -/
theorem size_step (h : d.step feeds r c = some r') : r'.size ≤ r.size + 1 := by
  obtain ⟨stage, defs⟩ := r
  rw [Dotenv.step] at h
  cases stage with
  | start =>
      dsimp only at h
      split_ifs at h
      · cases h
        exact Nat.le_succ _
      · cases h
        exact Nat.le_succ _
      · exact size_readName d h
  | comment =>
      cases h
      simp only [Reading.size, Stage.pending]
      split_ifs <;> exact Nat.le_succ _
  | key read => exact size_readName d h
  | value key =>
      dsimp only at h
      split_ifs at h
      · cases h
        exact Nat.le_succ _
      · cases h
        exact Nat.le_succ _
      · exact size_readBare d h
  | bare key read => 
      have := size_readBare d h
      simp only [Reading.size, Stage.pending] at this ⊢
      omega
  | quoted quote key read escaped =>
      have := size_readQuoted d h
      simp only [Reading.size, Stage.pending] at this ⊢
      omega

theorem size_run {text : List Char} (h : d.run feeds r text = some r') :
    r'.size ≤ r.size + text.length := by
  induction text generalizing r with
  | nil =>
      cases h
      exact Nat.le_refl _
  | cons c text ih =>
      obtain ⟨r'', hstep, hrun⟩ := Option.bind_eq_some_iff.1 h
      have hsize := size_step d hstep
      have hrest := ih hrun
      rw [List.length_cons]
      omega

end Size

section Line

variable (d : Dotenv) (environment : List Char → Option (List Char)) (defs : List (List Char × List Char)) {key value : List Char}

theorem run_append (r : Reading) (s t : List Char) :
    d.run environment r (s ++ t) = (d.run environment r s).bind fun r' => d.run environment r' t :=
      List.foldlM_append

theorem isInlineSpace_of_isKeyChar {c : Char} (hc : isKeyChar c) : isInlineSpace c = false := by
  have hrange := keyChar_range hc
  simp only [isInlineSpace, Bool.or_eq_false_iff, decide_eq_false_iff_not]
  omega

theorem readName_of_isKeyChar {r : Reading} {read : List Char} {c : Char} (hc : isKeyChar c) :
    d.readName environment r read c = some ⟨.key (read ++ [c]), r.defs⟩ := by
  have hne : ∀ a, isKeyChar a = false → c ≠ a :=
    fun a ha heq => Bool.false_ne_true (ha.symm.trans (heq ▸ hc))
  have hmark : ¬ (c = '=' ∨ c = ':') := not_or.2 ⟨hne '=' rfl, hne ':' rfl⟩
  rw [Dotenv.readName, isInlineSpace_of_isKeyChar hc, if_neg Bool.false_ne_true, if_neg hmark, if_neg (hne '\n' rfl),
    if_pos (d.isName_of_isKeyChar c hc)]

theorem run_name (read : List Char) {text : List Char} (h : ∀ c ∈ text, isKeyChar c) :
    d.run environment ⟨.key read, defs⟩ text = some ⟨.key (read ++ text), defs⟩ := by
  induction text generalizing read with
  | nil =>
      rw [List.append_nil]
      rfl
  | cons c text ih =>
      have hstep : d.step environment ⟨.key read, defs⟩ c = some ⟨.key (read ++ [c]), defs⟩ :=
        readName_of_isKeyChar d environment (h c List.mem_cons_self)
      have hrest := ih (read ++ [c]) fun a ha => h a (List.mem_cons_of_mem _ ha)
      rw [List.append_assoc, List.singleton_append] at hrest
      rw [Dotenv.run, List.foldlM_cons, hstep]
      exact hrest

theorem keyOf_key (h : isKey key) : keyOf key = key := by
  have hspace : (key.drop 6).head?.any isInlineSpace = false := by
    rw [Option.any_eq_false]
    exact fun c hc => by simp [isInlineSpace_of_isKeyChar (isKeyChar_of_mem h (List.mem_of_mem_drop (List.mem_of_head? hc)))]
  have hexport : dropExport key = key := by
    rw [dropExport, hspace]
    simp
  rw [keyOf, hexport, List.rdropWhile_eq_self_iff]
  intro hne
  rw [(keyChar_plain (isKeyChar_of_mem h (List.getLast_mem hne))).1]
  exact Bool.false_ne_true

theorem run_key (h : isKey key) :
    d.run environment ⟨.start, defs⟩ (key ++ ['=']) = some ⟨.value key, defs⟩ := by
  have hmark : d.step environment ⟨.key key, defs⟩ '=' = some ⟨.value key, defs⟩ := by
    have hblank : ' ' ∉ key := not_mem_key h rfl
    simp [Dotenv.step, Dotenv.readName, keyOf_key h, hblank, isInlineSpace]
  obtain ⟨c, cs, rfl⟩ := List.exists_cons_of_ne_nil (key_ne_nil h)
  have hc := isKeyChar_of_mem h (List.mem_cons_self (a := c) (l := cs))
  have hhash : c ≠ '#' := by
    rintro rfl
    cases hc
  have hstep : d.step environment ⟨.start, defs⟩ c = some ⟨.key [c], defs⟩ := by
    rw [Dotenv.step]
    dsimp only
    rw [(keyChar_plain hc).1, if_neg Bool.false_ne_true, if_neg hhash]
    exact readName_of_isKeyChar d environment hc
  have hname := run_name d environment defs [c] fun a ha => isKeyChar_of_mem h (List.mem_cons_of_mem c ha)
  rw [run_append, Dotenv.run, List.foldlM_cons, hstep]
  exact Option.bind_eq_some_iff.2 ⟨_, hname, Option.bind_eq_some_iff.2 ⟨_, hmark, rfl⟩⟩

theorem run_bare (key read : List Char) {text : List Char} (h : '\n' ∉ text) :
    d.run environment ⟨.bare key read, defs⟩ text = some ⟨.bare key (read ++ text), defs⟩ := by
  induction text generalizing read with
  | nil =>
      rw [List.append_nil]
      rfl
  | cons c text ih =>
      rw [List.mem_cons, not_or] at h
      have hstep : d.step environment ⟨.bare key read, defs⟩ c = some ⟨.bare key (read ++ [c]), defs⟩ :=
        if_neg (Ne.symm h.1)
      have hrest := ih (read ++ [c]) h.2
      rw [List.append_assoc, List.singleton_append] at hrest
      rw [Dotenv.run, List.foldlM_cons, hstep]
      exact hrest

theorem run_line (hkey : isKey key) (hfeed : '\n' ∉ value)
    (hhead : ∀ c ∈ value.head?, isInlineSpace c = false ∧ c ≠ '\'' ∧ c ≠ '"') :
    d.run environment ⟨.start, defs⟩ ((key ++ '=' :: value) ++ ['\n']) =
      (d.expand environment defs (bareText value)).map fun v => ⟨.start, defs ++ [(key, v)]⟩ := by
  have hline : (key ++ '=' :: value) ++ ['\n'] = (key ++ ['=']) ++ (value ++ ['\n']) := by simp
  rw [hline, run_append, run_key d environment defs hkey, Option.bind_some]
  cases value with
  | nil =>
      simp [Dotenv.run, Dotenv.step, Dotenv.readBare, Dotenv.define, isInlineSpace]
  | cons c text =>
      rw [List.mem_cons, not_or] at hfeed
      obtain ⟨hspace, hsingle, hdouble⟩ := hhead c rfl
      have hstep : d.step environment ⟨.value key, defs⟩ c = some ⟨.bare key [c], defs⟩ := by
        simp [Dotenv.step, Dotenv.readBare, hspace, hsingle, hdouble, Ne.symm hfeed.1]
      have hbare := run_bare d environment defs key [c] hfeed.2
      rw [List.cons_append, Dotenv.run, List.foldlM_cons, hstep]
      change d.run environment ⟨.bare key [c], defs⟩ (text ++ ['\n']) = _
      rw [run_append, hbare, Option.bind_some]
      simp [Dotenv.run, Dotenv.step, Dotenv.readBare, Dotenv.define]

theorem cutComment_eq_self_iff (read : List Char) : cutComment read = read ↔ ¬ [' ', '#'] <:+: read := by
  fun_induction cutComment read with
  | case1 cs => exact iff_of_false (fun h => by cases h) fun h => h (List.prefix_append [' ', '#'] cs).isInfix
  | case2 c cs hne ih =>
      rw [List.cons_inj_right, ih, List.infix_cons_iff]
      have hhead : ¬ [' ', '#'] <+: c :: cs := by
        rintro ⟨rest, hrest⟩
        obtain ⟨rfl, rfl⟩ := List.cons.inj hrest
        exact hne rest rfl rfl
      simp [hhead]
  | case3 => simp

theorem bareText_eq_self_iff (value : List Char) :
    bareText value = value ↔ ¬ [' ', '#'] <:+: value ∧ ∀ c ∈ value.getLast?, isGoSpace c = false := by
  have hlast : value.rdropWhile isGoSpace = value ↔ ∀ c ∈ value.getLast?, isGoSpace c = false := by
    rw [List.rdropWhile_eq_self_iff]
    constructor
    · intro h c hc
      obtain ⟨hne, rfl⟩ := List.mem_getLast?_eq_getLast hc
      simpa using h hne
    · intro h hne
      simp [h _ (List.getLast?_eq_some_getLast hne)]
  constructor
  · intro h
    have hcut : cutComment value = value := by
      refine (cutComment_isPrefix value).eq_of_length_le ?_
      conv_lhs => rw [← h]
      exact (List.rdropWhile_prefix _ _).length_le
    rw [bareText, hcut] at h
    exact ⟨(cutComment_eq_self_iff value).1 hcut, hlast.1 h⟩
  · rintro ⟨hcomment, hend⟩
    rw [bareText, (cutComment_eq_self_iff value).2 hcomment, hlast.2 hend]

theorem expand_plain (h : Plain value) : d.expand environment defs (bareText value) = some value := by
  rw [(bareText_eq_self_iff value).2 ⟨h.comment, h.last⟩]
  exact d.substitute_plain _ value h.dollar

variable {entries : List EnvEntry}

theorem run_lines (hkey : ∀ e ∈ entries, isKey e.key.toList) (hfeed : ∀ e ∈ entries, '\n' ∉ e.value.toList)
    (hplain : ∀ e ∈ entries, Plain e.value.toList) :
    d.run environment ⟨.start, defs⟩ ((entries.map lineOf).flatMap (· ++ ['\n'])) = some ⟨.start, defs ++ definitions entries⟩ := by
  induction entries generalizing defs with
  | nil =>
      have hdefs : defs ++ definitions [] = defs := List.append_nil defs
      rw [hdefs]
      rfl
  | cons e entries ih =>
      rw [List.forall_mem_cons] at hkey hfeed hplain
      have hline := run_line d environment defs hkey.1 hfeed.1 hplain.1.head
      rw [expand_plain d environment defs hplain.1] at hline
      rw [List.map_cons, List.flatMap_cons, run_append, lineOf, hline]
      have hrest := ih (defs ++ [(e.key.toList, e.value.toList)]) hkey.2 hfeed.2 hplain.2
      rw [List.append_assoc] at hrest
      exact hrest

end Line

section Tight

variable (d : Dotenv) {defs : List (List Char × List Char)} {key value : List Char} {r : Reading}

theorem size_of_head {c : Char} {text : List Char} (hkey : isKey key)
    (hc : ¬ (isInlineSpace c = false ∧ c ≠ '\'' ∧ c ≠ '"'))
    (hrun : d.run feeds ⟨.start, defs⟩ ((key ++ '=' :: c :: text) ++ ['\n']) = some r) :
    r.size ≤ weight defs + key.length + text.length + 2 := by
  have hline : (key ++ '=' :: c :: text) ++ ['\n'] = (key ++ ['=']) ++ ([c] ++ (text ++ ['\n'])) := by
    simp
  have hstep : ∃ r', d.run feeds ⟨.value key, defs⟩ [c] = some r' ∧
    r'.size = weight defs + key.length + 1 := by
    cases hspace : isInlineSpace c with
    | true => exact ⟨⟨.value key, defs⟩, by simp [Dotenv.run, Dotenv.step, hspace], rfl⟩
    | false =>
        have hquote : c = '\'' ∨ c = '"' := by
          by_contra hnot
          exact hc ⟨hspace, not_or.1 hnot⟩
        exact ⟨⟨.quoted c key [] false, defs⟩, by simp [Dotenv.run, Dotenv.step, hspace, hquote], rfl⟩
  obtain ⟨r', hone, hsize⟩ := hstep
  rw [hline, run_append, run_key d feeds defs hkey, Option.bind_some, run_append, hone,
    Option.bind_some] at hrun
  have hrest := size_run d hrun
  rw [List.length_append, List.length_singleton] at hrest
  omega

theorem line_of_tight (hkey : isKey key) (hfeed : '\n' ∉ value)
    (hrun : d.run feeds ⟨.start, defs⟩ ((key ++ '=' :: value) ++ ['\n']) = some r)
    (hsize : weight defs + key.length + value.length + 2 ≤ r.size) : Plain value ∧
        r = ⟨.start, defs ++ [(key, value)]⟩ := by
  have hhead : ∀ c ∈ value.head?, isInlineSpace c = false ∧ c ≠ '\'' ∧ c ≠ '"' := by
    intro c hc
    by_contra hnot
    obtain ⟨text, rfl⟩ := List.head?_eq_some_iff.1 hc
    have hloss := size_of_head d hkey hnot hrun
    rw [List.length_cons] at hsize
    omega
  rw [run_line d feeds defs hkey hfeed hhead] at hrun
  obtain ⟨v, hv, rfl⟩ := Option.map_eq_some_iff.1 hrun
  have hlength : value.length ≤ v.length := by
    have hsingle := weight_singleton_le key v
    simp only [Reading.size, Stage.pending, weight_append] at hsize
    omega
  have hbare : bareText value = value :=
    (bareText_isPrefix value).eq_of_length_le (Nat.le_trans hlength (length_expand_le d hv))
  rw [hbare] at hv
  have hdollar : '$' ∉ value :=
    fun hmem => absurd (d.substitute_short '\n' value v hmem hv) (Nat.not_lt.2 hlength)
  obtain ⟨hcomment, hlast⟩ := (bareText_eq_self_iff value).1 hbare
  have hplain : Plain value := ⟨hdollar, hhead, hcomment, hlast⟩
  rw [Dotenv.expand, d.substitute_plain _ value hdollar] at hv
  obtain rfl : value = v := Option.some_inj.1 hv
  exact ⟨hplain, rfl⟩

theorem plain_of_tight {entries : List EnvEntry} (hkey : ∀ e ∈ entries, isKey e.key.toList)
    (hfeed : ∀ e ∈ entries, '\n' ∉ e.value.toList)
    (hrun : d.run feeds ⟨.start, defs⟩ ((entries.map lineOf).flatMap (· ++ ['\n'])) = some r)
    (hsize : weight defs + ((entries.map lineOf).flatMap (· ++ ['\n'])).length ≤ r.size) :
    ∀ e ∈ entries, Plain e.value.toList := by
  induction entries generalizing defs with
  | nil => exact fun e he => by cases he
  | cons e entries ih =>
      rw [List.forall_mem_cons] at hkey hfeed ⊢
      rw [List.map_cons, List.flatMap_cons, run_append] at hrun
      obtain ⟨r', hline, hrest⟩ := Option.bind_eq_some_iff.1 hrun
      have hlength : (lineOf e).length = e.key.toList.length + e.value.toList.length + 1 := by
        simp [lineOf]; omega
      rw [List.map_cons, List.flatMap_cons, List.length_append, List.length_append, List.length_singleton,
        hlength] at hsize
      have hbound := size_run d hrest
      obtain ⟨hplain, rfl⟩ := line_of_tight d hkey.1 hfeed.1 hline (by omega)
      refine ⟨hplain, ih hkey.2 hfeed.2 hrest ?_⟩
      rw [weight_append, weight_singleton _ hfeed.1]
      omega

end Tight

section Files

variable (d : Dotenv) {environment : List Char → Option (List Char)} {entries : List EnvEntry}

theorem composeEnvFile_eq (h : ∀ e ∈ entries, e.availability ≠ .build) :
    composeEnvFile entries = renderRuntimeEnv entries := by
  have hall : runtimeEntries entries = entries :=
    List.filter_eq_self.2 fun e he => decide_eq_true (h e he)
  rw [composeEnvFile, renderRuntimeEnv, hall, List.length_map]

/-- Behind a line feed no name and no bare value is open. -/
theorem finish_of_feed {r r' : Reading} (hstep : d.step environment r '\n' = some r')
    {defs : List (List Char × List Char)}
    (hfinish : d.finish environment r' = some defs) : r'.defs = defs := by
  have hstart : ∀ {r : Reading}, r.stage = .start → d.finish environment r = some defs →
    r.defs = defs := by
    intro r hr h
    rw [Dotenv.finish, hr] at h
    exact Option.some_inj.1 h
  have hdefine : ∀ {key : List Char} {value : Option (List Char)}, Dotenv.define r key value = some r' →
    r'.stage = .start := by
    intro key value h
    obtain ⟨v, -, rfl⟩ := Option.map_eq_some_iff.1 h
    rfl
  have hquoted : ∀ {quote : Char} {key read : List Char} {escaped : Bool}, r'.stage ≠ .quoted quote key read escaped := by
    intro quote key read escaped hr
    rw [Dotenv.finish, hr] at hfinish
    cases hfinish
  refine hstart ?_ hfinish
  obtain ⟨stage, before⟩ := r
  rw [Dotenv.step] at hstep
  cases stage with
  | start =>
      cases hstep
      rfl
  | comment =>
      cases hstep
      rfl
  | key read =>
      obtain ⟨-, rfl⟩ : ' ' ∉ keyOf read ∧
        Dotenv.inherit environment ⟨.key read, before⟩ (keyOf read) = r' := by
        simpa [Dotenv.readName, isInlineSpace] using hstep
      rw [Dotenv.inherit]
      split <;> rfl
  | value key => exact hdefine hstep
  | bare key read => exact hdefine hstep
  | quoted quote key read escaped =>
      dsimp only at hstep
      rw [Dotenv.readQuoted] at hstep
      split_ifs at hstep
      · cases hstep
        exact absurd rfl hquoted
      · cases hstep
        exact absurd rfl hquoted
      · cases hstep
        exact absurd rfl hquoted
      · cases hstep
        exact absurd rfl hquoted
      · exact hdefine hstep
      · exact hdefine hstep

theorem read_of_feed {file : String} {text : List Char} (hfile : file.toList = text ++ ['\n'])
    {defs : List (List Char × List Char)}
    (hread : d.read environment file = some defs) :
    ∃ r, d.run environment ⟨.start, []⟩ (text ++ ['\n']) = some r ∧ r.defs = defs := by
  rw [Dotenv.read, hfile] at hread
  obtain ⟨r, hrun, hfinish⟩ := Option.bind_eq_some_iff.1 hread
  refine ⟨r, hrun, ?_⟩
  rw [run_append] at hrun
  obtain ⟨r', -, hlast⟩ := Option.bind_eq_some_iff.1 hrun
  obtain ⟨r'', hstep, hnil⟩ := Option.bind_eq_some_iff.1 hlast
  cases hnil
  exact finish_of_feed d hstep hfinish

theorem weight_definitions (hfeed : ∀ e ∈ entries, '\n' ∉ e.value.toList) :
    weight (definitions entries) = ((entries.map lineOf).flatMap (· ++ ['\n'])).length := by
  induction entries with
  | nil => rfl
  | cons e entries ih =>
      rw [List.forall_mem_cons] at hfeed
      have hdefs : definitions (e :: entries) = [(e.key.toList, e.value.toList)] ++ definitions entries :=
        rfl
      rw [hdefs, weight_append, weight_singleton _ hfeed.1, ih hfeed.2]
      simp [lineOf]
      omega

theorem weight_le_of_subset {defs defs' : List (List Char × List Char)} (hnodup : defs.Nodup)
    (h : defs ⊆ defs') : weight defs ≤ weight defs' := by
  obtain ⟨l, hperm, hsub⟩ := List.subperm_of_subset hnodup h
  rw [weight, ← (hperm.map _).sum_eq]
  exact (hsub.map _).sum_le_sum fun n _ => Nat.zero_le n

variable (hkey : ∀ e ∈ entries, isKey e.key.toList) (hline : ∀ e ∈ entries, ∀ c ∈ e.value.toList, isLineTerminator c = false)

include hkey hline

theorem readEnvFile_of_short (client : List Char → Option (List Char))
    (hbuild : ∀ e ∈ entries, e.availability ≠ .build)
    (hshort : ∀ e ∈ entries, bytes (lineOf e) ≤ maxLineBytes) :
    readEnvFile client (renderRuntimeEnv entries) = some (definitions entries) := by
  have hall : runtimeEntries entries = entries :=
    List.filter_eq_self.2 fun e he => decide_eq_true (hbuild e he)
  rw [readEnvFile_render (by rwa [hall]), hall]
  refine (readFileLines_iff hkey).2 fun e he => ⟨fun hfeed => ?_, fun hreturn => ?_, hshort e he⟩
  · cases hline e he _ hfeed
  · cases hline e he _ (List.mem_of_getLast? hreturn)

theorem of_readEnvFile (client : List Char → Option (List Char))
    (hbuild : ∀ e ∈ entries, e.availability ≠ .build)
    {defs : List (List Char × List Char)}
    (hread : readEnvFile client (renderRuntimeEnv entries) = some defs) :
    defs = definitions entries ∧ ∀ e ∈ entries, bytes (lineOf e) ≤ maxLineBytes := by
  have hall : runtimeEntries entries = entries :=
    List.filter_eq_self.2 fun e he => decide_eq_true (hbuild e he)
  rw [readEnvFile_render (by rwa [hall]), hall] at hread
  obtain ⟨hdefs, hshort⟩ :=
    readFileLines_of_no_feed hkey (fun e he hfeed => by cases hline e he _ hfeed) hread
  refine ⟨hdefs.trans (List.map_congr_left fun e he => ?_), hshort⟩
  rw [dropReturn_of_not_mem fun hreturn => by cases hline e he _ hreturn]

theorem read_of_plain (environment : List Char → Option (List Char))
    (hbuild : ∀ e ∈ entries, e.availability ≠ .build)
    (hplain : ∀ e ∈ entries, Plain e.value.toList) :
    d.read environment (composeEnvFile entries) = some (definitions entries) := by
  have hall : runtimeEntries entries = entries :=
    List.filter_eq_self.2 fun e he => decide_eq_true (hbuild e he)
  have hrun := run_lines d environment [] hkey (fun e he hfeed => by cases hline e he _ hfeed) hplain
  rw [Dotenv.read, composeEnvFile_eq hbuild, renderRuntimeEnv_toList, hall, hrun]
  rfl

/-- Definitions as long as the file leave no character of it over. -/
theorem plain_of_weight (hbuild : ∀ e ∈ entries, e.availability ≠ .build)
    {defs : List (List Char × List Char)}
    (hread : d.read feeds (composeEnvFile entries) = some defs)
    (hweight : weight (definitions entries) ≤ weight defs) :
    ∀ e ∈ entries, Plain e.value.toList := by
  have hall : runtimeEntries entries = entries :=
    List.filter_eq_self.2 fun e he => decide_eq_true (hbuild e he)
  have hfeed : ∀ e ∈ entries, '\n' ∉ e.value.toList := fun e he hmem => by cases hline e he _ hmem
  have hfile : (composeEnvFile entries).toList = (entries.map lineOf).flatMap (· ++ ['\n']) := by
    rw [composeEnvFile_eq hbuild, renderRuntimeEnv_toList, hall]
  rw [weight_definitions hfeed] at hweight
  rcases List.eq_nil_or_concat entries with rfl | ⟨init, e, rfl⟩
  · exact fun e he => by cases he
  · have hend : ((init.concat e).map lineOf).flatMap (· ++ ['\n']) =
        ((init.map lineOf).flatMap (· ++ ['\n']) ++ lineOf e) ++ ['\n'] := by
      simp
    obtain ⟨r, hrun, rfl⟩ := read_of_feed d (hfile.trans hend) hread
    rw [← hend] at hrun
    refine plain_of_tight d hkey hfeed hrun ?_
    have hsize : weight r.defs ≤ r.size := Nat.le_add_right _ _
    have hnil : weight [] = 0 := rfl
    omega

end Files

end Yeah.Compose
