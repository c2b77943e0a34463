import Yeah.Text.Space
import Mathlib.Tactic.IntervalCases

namespace Yeah.Yaml

/-- A scalar as it is written: a plain one, or the text between two double quotes. -/
inductive Raw
  | plain (text : List Char)
  | quoted (body : List Char)
  deriving DecidableEq

/-- What a scalar stands for: a string, or what the core schema takes for null, a boolean or a number. -/
inductive Value
  | str (s : String)
  | other (s : String)
  deriving DecidableEq

def Raw.text : Raw → List Char
  | .plain t => t
  | .quoted b => '"' :: (b ++ ['"'])

/-- The characters with a meaning at the start of a plain scalar. -/
def isIndicator (c : Char) : Bool := c ∈ "-?:,[]\x7b\x7d#&*!|>'\"%@` ".toList

def isPrintable (c : Char) : Bool := 0x20 ≤ c.toNat && !(0x7F ≤ c.toNat && c.toNat ≤ 0x9F)

/-- The rest of a plain scalar; `b` tells that the character before is a blank. -/
def plainFrom : Bool → List Char → Bool
  | b, [] => !b
  | b, c :: cs =>
      isPrintable c && (c ≠ ':' || cs.head?.any (· ≠ ' ')) && !(c = '#' && b) && plainFrom (c = ' ') cs

def isPlain : List Char → Bool
  | [] => false
  | c :: cs => (!isIndicator c || (c ∈ ['-', '?', ':'] && cs.head?.any (· ≠ ' '))) && plainFrom false (c :: cs)

/-- The text up to the closing quote, and what follows. -/
def scanQuoted : Bool → List Char → Option (List Char × List Char)
  | _, [] => none
  | true, c :: cs => (scanQuoted false cs).map fun p => (c :: p.1, p.2)
  | false, c :: cs => if c = '"' then some ([], cs) else (scanQuoted (c = '\\') cs).map fun p => (c :: p.1, p.2)

/-- The text between quotes ends at the closing one: quotes inside are escaped. -/
def isBody : Bool → List Char → Bool
  | b, [] => !b
  | true, _ :: cs => isBody false cs
  | false, c :: cs => c ≠ '"' && isBody (c = '\\') cs

def readScalar : List Char → Option Raw
  | [] => none
  | c :: cs =>
      if c = '"' then
        match scanQuoted false cs with
        | some (body, []) => some (.quoted body)
        | _ => none
      else if isPlain (c :: cs) then some (.plain (c :: cs))
      else none

/-- A scalar that is read back as it is written, on one line. -/
def Raw.Good : Raw → Prop
  | .plain t => isPlain t = true
  | .quoted b => isBody false b = true ∧ '\n' ∉ b

section Escapes

def simpleEscape (c : Char) : Option Char :=
  match c with
  | '0' => some '\x00'
  | 'a' => some '\x07'
  | 'b' => some '\x08'
  | 't' => some '\t'
  | '\t' => some '\t'
  | 'n' => some '\n'
  | 'v' => some '\x0b'
  | 'f' => some '\x0c'
  | 'r' => some '\r'
  | 'e' => some '\x1b'
  | ' ' => some ' '
  | '"' => some '"'
  | '/' => some '/'
  | '\\' => some '\\'
  | 'N' => some (Char.ofNat 0x85)
  | '_' => some (Char.ofNat 0xA0)
  | 'L' => some (Char.ofNat 0x2028)
  | 'P' => some (Char.ofNat 0x2029)
  | _ => none

/-- How many hexadecimal digits follow. -/
def hexLength (c : Char) : Option Nat :=
  match c with
  | 'x' => some 2
  | 'u' => some 4
  | 'U' => some 8
  | _ => none

def hexDigit (c : Char) : Option Nat :=
  if '0' ≤ c ∧ c ≤ '9' then some (c.toNat - 48)
  else if 'a' ≤ c ∧ c ≤ 'f' then some (c.toNat - 87)
  else if 'A' ≤ c ∧ c ≤ 'F' then some (c.toNat - 55)
  else none

inductive Mode
  | text
  | escape
  /-- So many digits are still to come; the number that those before make. -/
  | hex (more : Nat) (n : Nat)

/-- What a double-quoted scalar stands for; `none` where it has an escape that YAML does not know. -/
def unescape : Mode → List Char → Option (List Char)
  | .text, [] => some []
  | .escape, [] => none
  | .hex _ _, [] => none
  | .text, c :: cs =>
      if c = '\\' then unescape .escape cs
      else if c.toNat < 0x20 ∧ c ≠ '\t' then none
      else (unescape .text cs).map (c :: ·)
  | .escape, c :: cs =>
      match hexLength c with
      | some k => unescape (.hex (k - 1) 0) cs
      | none => (simpleEscape c).bind fun d => (unescape .text cs).map (d :: ·)
  | .hex more n, c :: cs =>
      (hexDigit c).bind fun d =>
        match more with
        | 0 => if (16 * n + d).isValidChar then (unescape .text cs).map (Char.ofNat (16 * n + d) :: ·) else none
        | more + 1 => unescape (.hex more (16 * n + d)) cs

end Escapes

section Schema

def isDigits (t : List Char) : Bool := t ≠ [] && t.all Char.isDigit

def dropSign : List Char → List Char
  | c :: cs => if c = '-' ∨ c = '+' then cs else c :: cs
  | [] => []

def isExponent : List Char → Bool
  | [] => true
  | c :: cs => (c = 'e' || c = 'E') && isDigits (dropSign cs)

def isNumber (t : List Char) : Bool :=
  let whole := (dropSign t).takeWhile Char.isDigit
  match (dropSign t).dropWhile Char.isDigit with
  | [] => whole ≠ []
  | c :: cs =>
      if c = '.' then
        (whole ≠ [] || (cs.takeWhile Char.isDigit) ≠ []) && isExponent (cs.dropWhile Char.isDigit)
      else whole ≠ [] && isExponent (c :: cs)

/-- What the core schema does not take for a string. -/
def isOther (t : List Char) : Bool :=
  t ∈ ["~", "null", "Null", "NULL", "true", "True", "TRUE", "false", "False", "FALSE", ".nan", ".NaN", ".NAN"].map String.toList ||
    dropSign t ∈ [".inf", ".Inf", ".INF"].map String.toList || isNumber t ||
    (t.take 2 = "0o".toList && isDigits (t.drop 2)) || (t.take 2 = "0x".toList && t.drop 2 ≠ [] && (t.drop 2).all fun c => (hexDigit c).isSome)

def Raw.value : Raw → Option Value
  | .plain t => some (if isOther t then .other (String.ofList t) else .str (String.ofList t))
  | .quoted b => (unescape .text b).map fun s => .str (String.ofList s)

end Schema

section Json

def hexChar (n : Nat) : Char := if n < 10 then Char.ofNat (48 + n) else Char.ofNat (87 + n)

/-- A character in `JSON.stringify`. -/
def jsonChar (c : Char) : List Char :=
  if c = '"' then ['\\', '"']
  else if c = '\\' then ['\\', '\\']
  else if c = '\x08' then ['\\', 'b']
  else if c = '\x0c' then ['\\', 'f']
  else if c = '\n' then ['\\', 'n']
  else if c = '\r' then ['\\', 'r']
  else if c = '\t' then ['\\', 't']
  else if c.toNat < 0x20 then ['\\', 'u', '0', '0', hexChar (c.toNat / 16), hexChar (c.toNat % 16)]
  else [c]

def jsonBody (s : List Char) : List Char := s.flatMap jsonChar

theorem unescape_char {c : Char} (h : c ≠ '\\') (hc : 0x20 ≤ c.toNat ∨ c = '\t') (rest : List Char) :
    unescape .text (c :: rest) = (unescape .text rest).map (c :: ·) := by
  rw [unescape, if_neg h, if_neg]
  rintro ⟨hn, ht⟩
  exact hc.elim (fun h' => by omega) ht

theorem unescape_jsonChar (c : Char) (rest : List Char) :
    unescape .text (jsonChar c ++ rest) = (unescape .text rest).map (c :: ·) := by
  rw [jsonChar]
  split_ifs with h1 h2 h3 h4 h5 h6 h7 h8
  iterate 7 subst_vars; rfl
  · have hc : c = Char.ofNat c.toNat := c.ofNat_toNat.symm
    generalize c.toNat = n at h8 hc
    subst hc
    interval_cases n <;> rfl
  · exact unescape_char h2 (Or.inl (by omega)) rest

/-- A string goes through `JSON.stringify` and YAML's double quotes unchanged. -/
theorem unescape_jsonBody (s : List Char) : unescape .text (jsonBody s) = some s := by
  induction s with
  | nil => rfl
  | cons c s ih => rw [jsonBody, List.flatMap_cons, unescape_jsonChar, ← jsonBody, ih, Option.map_some]

theorem isBody_jsonChar (c : Char) (rest : List Char) :
    isBody false (jsonChar c ++ rest) = isBody false rest := by
  rw [jsonChar]
  split_ifs with h1 h2 h3 h4 h5 h6 h7 h8
  iterate 7 rfl
  · have hx (n : Nat) (hn : n < 16) : hexChar n ≠ '"' ∧ hexChar n ≠ '\\' := by interval_cases n <;> decide
    have ha := hx (c.toNat / 16) (by omega)
    have hb := hx (c.toNat % 16) (by omega)
    simp [isBody, ha, hb]
  · simp [isBody, h1, h2]

theorem isBody_jsonBody (s : List Char) : isBody false (jsonBody s) = true := by
  induction s with
  | nil => rfl
  | cons c s ih => rw [jsonBody, List.flatMap_cons, isBody_jsonChar, ← jsonBody, ih]

theorem notMem_jsonChar {c d : Char} (hd : d.toNat < 0x20) : d ∉ jsonChar c := by
  have hx (n : Nat) (hn : n < 16) : d ≠ hexChar n := by
    have hmin : 0x20 ≤ (hexChar n).toNat := by interval_cases n <;> decide
    rintro rfl
    omega
  have hne (e : Char) (he : 0x20 ≤ e.toNat) : d ≠ e := by
    rintro rfl
    omega
  rw [jsonChar]
  split_ifs with h1 h2 h3 h4 h5 h6 h7 h8
  iterate 7 simp only [List.mem_cons, List.not_mem_nil, or_false, not_or]; exact ⟨hne _ (by decide), hne _ (by decide)⟩
  · simp only [List.mem_cons, List.not_mem_nil, or_false, not_or]
    exact ⟨hne _ (by decide), hne _ (by decide), hne _ (by decide), hne _ (by decide), hx _ (by omega),
      hx _ (by omega)⟩
  · rw [List.mem_singleton]
    rintro rfl
    exact h8 hd

/-- `JSON.stringify` leaves no line break or other control character. -/
theorem notMem_jsonBody {d : Char} (hd : d.toNat < 0x20) (s : List Char) : d ∉ jsonBody s := fun h => by
  obtain ⟨c, -, hc⟩ := List.mem_flatMap.1 h
  exact notMem_jsonChar hd hc

end Json

section Words

/-- The characters of names, which mean nothing in a plain scalar. -/
def isWordChar (c : Char) : Bool := c.isAlphanum || c = '-' || c = '.' || c = '_'

theorem toNat_of_alphanum {c : Char} (h : c.isAlphanum = true) : 0x30 ≤ c.toNat ∧ c.toNat ≤ 0x7A := by
  have hrange := Text.alphanum_range h
  omega

theorem isPrintable_of_word {c : Char} (h : isWordChar c = true) : isPrintable c = true := by
  simp only [isWordChar, Bool.or_eq_true, decide_eq_true_eq] at h
  rcases h with ((ha | rfl) | rfl) | rfl
  · obtain ⟨h1, h2⟩ := toNat_of_alphanum ha
    rw [isPrintable, Bool.and_eq_true, Bool.not_eq_true', decide_eq_true_eq, Bool.and_eq_false_iff]
    exact ⟨by omega, Or.inl (decide_eq_false (by omega))⟩
  all_goals decide

theorem plainFrom_of_word {l : List Char} (h : ∀ c ∈ l, isWordChar c = true) (hne : l ≠ []) (b : Bool) :
    plainFrom b l = true := by
  induction l generalizing b with
  | nil => exact absurd rfl hne
  | cons c l ih =>
      have hc := h c (by simp)
      have hno (d : Char) (hd : isWordChar d = false) : c ≠ d := by
        rintro rfl
        simp [hc] at hd
      have hrest : plainFrom (c = ' ') l = true := by
        cases l with
        | nil => simp [plainFrom, hno ' ' (by decide)]
        | cons d l => exact ih (fun e he => h e (by simp [he])) (by simp) _
      simp [plainFrom, isPrintable_of_word hc, hno ':' (by decide), hno '#' (by decide), hrest]

theorem isPlain_of_word {l : List Char} (h : ∀ c ∈ l, isWordChar c = true)
    (hfirst : l.head?.any Char.isAlphanum = true) :
    isPlain l = true := by
  cases l with
  | nil => cases hfirst
  | cons c l =>
      have hc : isIndicator c = false := by
        rw [isIndicator, decide_eq_false_iff_not]
        intro hm
        have hno : ∀ d ∈ "-?:,[]\x7b\x7d#&*!|>'\"%@` ".toList, d.isAlphanum = false := by simp
        have ha : c.isAlphanum = true := hfirst
        simp [hno c hm] at ha
      rw [isPlain, hc, plainFrom_of_word h (by simp)]
      rfl

end Words

section Reading

theorem scanQuoted_body {b : Bool} {body : List Char} (h : isBody b body = true) (rest : List Char) :
    scanQuoted b (body ++ '"' :: rest) = some (body, rest) := by
  induction body generalizing b with
  | nil =>
      cases b
      · rfl
      · cases h
  | cons c cs ih =>
      cases b with
      | true => rw [List.cons_append, scanQuoted, ih h, Option.map_some]
      | false =>
          simp only [isBody, Bool.and_eq_true, decide_eq_true_eq] at h
          rw [List.cons_append, scanQuoted, if_neg h.1, ih h.2, Option.map_some]

theorem readScalar_text {r : Raw} (h : r.Good) : readScalar r.text = some r := by
  cases r with
  | quoted b =>
      rw [Raw.text, readScalar, if_pos rfl, scanQuoted_body h.1 []]
  | plain t =>
      cases t with
      | nil => cases h
      | cons c cs =>
          have hq : c ≠ '"' := by
            rintro rfl
            simp [Raw.Good, isPlain, isIndicator] at h
          have hp : isPlain (c :: cs) = true := h
          rw [Raw.text, readScalar, if_neg hq, if_pos hp]

theorem plainFrom_tail {b : Bool} {c : Char} {cs : List Char} (h : plainFrom b (c :: cs) = true) :
    isPrintable c = true ∧ (c = ':' → cs.head?.any (· ≠ ' ') = true) ∧ plainFrom (c = ' ') cs = true := by
  simp only [plainFrom, Bool.and_eq_true, Bool.or_eq_true, decide_eq_true_eq] at h
  exact ⟨h.1.1.1, fun hc => h.1.1.2.resolve_left fun hn => hn hc, h.2⟩

theorem printable_of_plainFrom {b : Bool} {t : List Char} (h : plainFrom b t = true) :
    ∀ c ∈ t, isPrintable c = true := by
  induction t generalizing b with
  | nil => simp
  | cons c cs ih =>
      obtain ⟨hc, -, hcs⟩ := plainFrom_tail h
      exact List.forall_mem_cons.2 ⟨hc, ih hcs⟩

theorem plainFrom_of_isPlain {t : List Char} (h : isPlain t = true) : plainFrom false t = true := by
  cases t with
  | nil => cases h
  | cons c cs =>
      rw [isPlain, Bool.and_eq_true] at h
      exact h.2

theorem Raw.Good.newline {r : Raw} (h : r.Good) : '\n' ∉ r.text := by
  cases r with
  | quoted b => simpa [Raw.text] using h.2
  | plain t =>
      intro hn
      have := printable_of_plainFrom (plainFrom_of_isPlain h) _ hn
      exact absurd this (by decide)

theorem Raw.Good.head {r : Raw} (h : r.Good) :
    ∃ c cs, r.text = c :: cs ∧ c ≠ ' ' ∧ c ≠ '\x7b' ∧ (c = '-' → cs.head?.any (· ≠ ' ') = true) := by
  cases r with
  | quoted b => exact ⟨'"', b ++ ['"'], rfl, by decide, by decide, by simp⟩
  | plain t =>
      cases t with
      | nil => cases h
      | cons c cs =>
          refine ⟨c, cs, rfl, ?_, ?_, ?_⟩
          · rintro rfl
            simp [Raw.Good, isPlain, isIndicator] at h
          · rintro rfl
            simp [Raw.Good, isPlain, isIndicator] at h
          · rintro rfl
            simp only [Raw.Good, isPlain, isIndicator, Bool.and_eq_true] at h
            simpa using h.1

end Reading

end Yeah.Yaml
