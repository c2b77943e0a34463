import Mathlib.Data.List.Infix

namespace Yeah.Sql

/-! ### Words of a statement -/

inductive Token
  | word (s : List Char)
  /-- Between double quotes. -/
  | quoted (s : List Char)
  /-- Between single quotes. -/
  | text (s : List Char)
  | symbol (c : Char)
  deriving DecidableEq

inductive Mode
  | start
  | word (acc : List Char)
  | inside (q : Char) (acc : List Char)
  /-- After a quote, which may be the first of a doubled one. -/
  | closed (q : Char) (acc : List Char)

def isQuote (c : Char) : Bool := c = '"' ∨ c.toNat = 39

def isBlank (c : Char) : Bool := c = ' ' ∨ (9 ≤ c.toNat ∧ c.toNat ≤ 13)

def isWordStart (c : Char) : Bool := c.isAlpha ∨ c = '_' ∨ 0x80 ≤ c.toNat

def isWordPart (c : Char) : Bool := isWordStart c ∨ c.isDigit ∨ c = '$'

def quoteToken (q : Char) (s : List Char) : Token := if q = '"' then .quoted s else .text s

/-- What a character begins where no token is open. -/
def opened (c : Char) : List Token × Mode :=
  if isQuote c then ([], .inside c [])
  else if isBlank c then ([], .start)
  else if isWordStart c then ([], .word [c.toLower])
  else ([.symbol c], .start)

def lex : Mode → List Char → Option (List Token)
  | .start, [] => some []
  | .word acc, [] => some [.word acc]
  | .closed q acc, [] => some [quoteToken q acc]
  | .inside _ _, [] => none
  | .start, c :: cs => (lex (opened c).2 cs).map ((opened c).1 ++ ·)
  | .word acc, c :: cs =>
      if isWordPart c then lex (.word (acc ++ [c.toLower])) cs
      else (lex (opened c).2 cs).map (.word acc :: (opened c).1 ++ ·)
  | .inside q acc, c :: cs => if c = q then lex (.closed q acc) cs else lex (.inside q (acc ++ [c])) cs
  | .closed q acc, c :: cs =>
      if c = q then lex (.inside q (acc ++ [c])) cs
      else (lex (opened c).2 cs).map (quoteToken q acc :: (opened c).1 ++ ·)

theorem lex_inside {q : Char} {s : List Char} (h : q ∉ s) (acc rest : List Char) :
    lex (.inside q acc) (s ++ q :: rest) = lex (.closed q (acc ++ s)) rest := by
  induction s generalizing acc with
  | nil => simp [lex]
  | cons c s ih =>
      have hc : c ≠ q := fun he => h (he ▸ List.mem_cons_self)
      rw [List.cons_append, lex, if_neg hc, ih fun hm => h (List.mem_cons_of_mem _ hm), List.append_assoc,
        List.singleton_append]

theorem lex_closed {q c : Char} (h : c ≠ q) (acc cs : List Char) :
    lex (.closed q acc) (c :: cs) = (lex (opened c).2 cs).map (quoteToken q acc :: (opened c).1 ++ ·) := by
  rw [lex, if_neg h]

theorem lex_quoted {s : List Char} (h : '"' ∉ s) {c : Char} (hc : c ≠ '"') (cs : List Char) :
    lex .start ('"' :: (s ++ '"' :: c :: cs)) = (lex (opened c).2 cs).map (.quoted s :: (opened c).1 ++ ·) := by
  have hopened : opened '"' = ([], .inside '"' []) := by rfl
  rw [lex, hopened, lex_inside h, lex_closed hc, Option.map_map, List.nil_append]
  rfl

def Lexes (s : List Char) (tokens : List Token) : Prop :=
  ∀ rest, lex .start (s ++ rest) = (lex .start rest).map (tokens ++ ·)

theorem Lexes.append {s t : List Char} {tokens more : List Token} (h : Lexes s tokens) (h' : Lexes t more) :
    Lexes (s ++ t) (tokens ++ more) := by
  intro rest
  rw [List.append_assoc, h, h', Option.map_map]
  congr 1
  funext l
  exact (List.append_assoc _ _ _).symm

theorem lexes_quoted {s : List Char} (h : '"' ∉ s) {c : Char} {tokens : List Token} (hc : c ≠ '"')
    (ho : opened c = (tokens, .start)) :
    Lexes ('"' :: (s ++ ['"', c])) (.quoted s :: tokens) := by
  intro rest
  rw [List.cons_append, List.append_assoc]
  exact (lex_quoted h hc rest).trans (by rw [ho])

/-! ### Statements `select a, b from t where ...` -/

inductive Condition
  | notNull
  | ne (s : List Char)
  | like (p : List Char)
  | notLike (p : List Char)
  deriving DecidableEq

structure Test where
  table : List Char
  column : List Char
  condition : Condition
  deriving DecidableEq

structure Query where
  columns : List (List Char)
  table : List Char
  tests : List Test
  deriving DecidableEq

def keyword (s : String) : Token := .word s.toList

/-- What may follow a column in a condition. -/
def condition (tokens : List Token) : Option Condition :=
  if tokens = ["is", "not", "null"].map keyword then some .notNull
  else
    match tokens with
    | [.symbol '<', .symbol '>', .text s] => some (.ne s)
    | [t, .text p] => if t = keyword "like" then some (.like p) else none
    | [n, t, .text p] => if n = keyword "not" ∧ t = keyword "like" then some (.notLike p) else none
    | _ => none

def test : List Token → Option Test
  | .quoted table :: .symbol '.' :: .quoted column :: rest => (condition rest).map fun c => ⟨table, column, c⟩
  | _ => none

/-- The pieces between the words `and`. -/
def conditions (tokens : List Token) : Option (List Test) := (tokens.splitOn (keyword "and")).mapM test

def query : List Token → Option Query
  | s :: .quoted a :: .symbol ',' :: .quoted b :: f :: .quoted table :: w :: rest =>
      if s = keyword "select" ∧ f = keyword "from" ∧
        w = keyword "where" then (conditions rest).map fun tests => ⟨[a, b], table, tests⟩
      else none
  | _ => none

theorem conditions_and {ts : List Token} (h : keyword "and" ∉ ts) (rest : List Token) :
    conditions (ts ++ keyword "and" :: rest) = (test ts).bind fun t => (conditions rest).map (t :: ·) := by
  rw [conditions, List.splitOn_append_cons_self_of_not_mem h, List.mapM_cons, conditions]
  cases test ts with
  | none => rfl
  | some t => cases (rest.splitOn (keyword "and")).mapM test <;> rfl

theorem conditions_last {ts : List Token} (h : keyword "and" ∉ ts) :
    conditions ts = (test ts).map ([·]) := by
  rw [conditions, List.splitOn_eq_singleton h]
  cases ht : test ts <;> simp [ht]

theorem query_select (a b table : List Char) (rest : List Token) :
    query ([keyword "select", .quoted a, .symbol ',', .quoted b, keyword "from", .quoted table, keyword "where"] ++ rest) =
      (conditions rest).map fun tests => ⟨[a, b], table, tests⟩ := by
  simp [query]

/-- A statement that the parser does not take is a syntax error. -/
def parse (statement : String) : Option Query := (lex .start statement.toList).bind query

/-! ### Their meaning -/

/-- `%` stands for any text, `_` for any character, and a backslash takes the next character as it is. -/
def fits : List Char → List Char → Bool
  | [], s => s.isEmpty
  | '%' :: p, s => s.tails.any (fits p)
  | '_' :: p, s => match s with | [] => false | _ :: s => fits p s
  | '\\' :: c :: p, s => match s with | [] => false | d :: s => c == d && fits p s
  | c :: p, s => match s with | [] => false | d :: s => c == d && fits p s

/-- A condition on a value that is null is not met. -/
def Condition.holds : Condition → Option String → Bool
  | .notNull, value => value.isSome
  | .ne s, value => value.any fun v => v.toList ≠ s
  | .like p, value => value.any fun v => fits p v.toList
  | .notLike p, value => value.any fun v => !fits p v.toList

def isWild (c : Char) : Bool := c = '%' ∨ c = '_' ∨ c = '\\'

theorem fits_prefix {p : List Char} (h : ∀ c ∈ p, isWild c = false) (s : List Char) :
    fits (p ++ ['%']) s = p.isPrefixOf s := by
  induction p generalizing s with
  | nil =>
      have hany : s.tails.any (fits []) = true :=
        List.any_eq_true.2 ⟨[], (List.mem_tails _ _).2 s.nil_suffix, rfl⟩
      rw [List.nil_append, fits, hany, List.isPrefixOf]
  | cons c p ih =>
      have hc := h c List.mem_cons_self
      simp only [isWild, decide_eq_false_iff_not, not_or] at hc
      cases s with
      | nil => simp [fits, hc]
      | cons d s => simp [fits, hc, ih fun c hc => h c (List.mem_cons_of_mem _ hc), List.isPrefixOf]

end Yeah.Sql
