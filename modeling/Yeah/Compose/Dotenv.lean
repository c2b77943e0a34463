import Yeah.Deploy.EnvFile
import Yeah.Compose.Interpolate
import Mathlib.Data.List.DropRight

namespace Yeah.Compose

open Deploy (isGoSpace defined)

/-- What the reader of env files takes from elsewhere: which characters (letters and digits of any script) may stand in a name,
how a value is interpolated with the variables that are set, and how the escape sequences between double quotes are replaced. -/
structure Dotenv where
  isName : Char → Bool
  isName_of_isKeyChar : ∀ c, Deploy.isKeyChar c → isName c
  substitute : (List Char → Option (List Char)) → List Char → Option (List Char)
  substitute_plain : ∀ env text, '$' ∉ text → substitute env text = some text
  /-- Where every variable is one character, what begins with a `$` is replaced by something shorter. -/
  substitute_short : ∀ c text value, '$' ∈ text → substitute (fun _ => some [c]) text = some value →
    value.length < text.length
  unescape : List Char → List Char
  unescape_short : ∀ text, (unescape text).length ≤ text.length

def isInlineSpace (c : Char) : Bool :=
  c.toNat = 9 || c.toNat = 11 || c.toNat = 12 || c.toNat = 13 || c.toNat = 32 || c.toNat = 0x85 || c.toNat = 0xA0

def cutComment : List Char → List Char
  | ' ' :: '#' :: _ => []
  | c :: cs => c :: cutComment cs
  | [] => []

def bareText (read : List Char) : List Char := (cutComment read).rdropWhile isGoSpace

def dropExport (read : List Char) : List Char :=
  if "export".toList <+: read && (read.drop 6).head?.any isInlineSpace then (read.drop 6).dropWhile isInlineSpace else read

def keyOf (read : List Char) : List Char := (dropExport read).rdropWhile isGoSpace

/-- Where the reader stands, with the characters of a name or a value read so far. -/
inductive Stage
  | start
  | comment
  | key (read : List Char)
  | value (key : List Char)
  | bare (key read : List Char)
  | quoted (quote : Char) (key read : List Char) (escaped : Bool)

structure Reading where
  stage : Stage
  defs : List (List Char × List Char)

namespace Dotenv

variable (d : Dotenv) (environment : List Char → Option (List Char))

/-- A variable of the process goes before one of the file. -/
def expand (defs : List (List Char × List Char)) (text : List Char) : Option (List Char) :=
  d.substitute (fun key => (environment key).or (defined defs key)) text

def define (r : Reading) (key : List Char) (value : Option (List Char)) : Option Reading :=
  value.map fun v => ⟨.start, r.defs ++ [(key, v)]⟩

/-- A line without a value takes the one of the process. -/
def inherit (r : Reading) (key : List Char) : Reading :=
  match environment key with
  | some v => ⟨.start, r.defs ++ [(key, v)]⟩
  | none => ⟨.start, r.defs⟩

def readName (r : Reading) (read : List Char) (c : Char) : Option Reading :=
  if isInlineSpace c then some ⟨.key (read ++ [c]), r.defs⟩
  else if c = '=' ∨ c = ':' then if ' ' ∈ keyOf read then none else some ⟨.value (keyOf read), r.defs⟩
  else if c = '\n' then if ' ' ∈ keyOf read then none else some (inherit environment r (keyOf read))
  else if d.isName c then some ⟨.key (read ++ [c]), r.defs⟩
  else none

def readBare (r : Reading) (key read : List Char) (c : Char) : Option Reading :=
  if c = '\n' then define r key (d.expand environment r.defs (bareText read)) else some ⟨.bare key (read ++ [c]), r.defs⟩

def readQuoted (r : Reading) (quote : Char) (key read : List Char) (escaped : Bool) (c : Char) :
    Option Reading :=
  if c ≠ quote then
    if escaped then some ⟨.quoted quote key (read ++ ['\\', c]) false, r.defs⟩
    else if c = '\\' then some ⟨.quoted quote key read true, r.defs⟩
    else some ⟨.quoted quote key (read ++ [c]) false, r.defs⟩
  else if escaped then some ⟨.quoted quote key (read ++ [c]) false, r.defs⟩
  else define r key (if quote = '"' then d.expand environment r.defs (d.unescape read) else some read)

def step (r : Reading) (c : Char) : Option Reading :=
  match r.stage with
  | .start => if isGoSpace c then some r else if c = '#' then some ⟨.comment, r.defs⟩ else d.readName environment r [] c
  | .comment => some ⟨if c = '\n' then .start else .comment, r.defs⟩
  | .key read => d.readName environment r read c
  | .value key =>
      if isInlineSpace c then some r
      else if c = '\'' ∨ c = '"' then some ⟨.quoted c key [] false, r.defs⟩
      else d.readBare environment r key [] c
  | .bare key read => d.readBare environment r key read c
  | .quoted quote key read escaped => d.readQuoted environment r quote key read escaped c

def run (r : Reading) (text : List Char) : Option Reading := text.foldlM (d.step environment) r

/-- At the end of the file no name and no quote may be open. -/
def finish (r : Reading) : Option (List (List Char × List Char)) :=
  match r.stage with
  | .start | .comment => some r.defs
  | .value key => (define r key (d.expand environment r.defs [])).map (·.defs)
  | .bare key read => (define r key (d.expand environment r.defs (bareText read))).map (·.defs)
  | .key _ | .quoted _ _ _ _ => none

/-- What Compose's reader defines, in order, or `none` if it refuses the file. -/
def read (file : String) : Option (List (List Char × List Char)) :=
  (d.run environment ⟨.start, []⟩ file.toList).bind (d.finish environment)

/-- A reader of names without accents and of `$NAME`, `${NAME}` and `$$`. -/
def plain : Dotenv where
  isName := Deploy.isKeyChar
  isName_of_isKeyChar _ h := h
  substitute env := interpolate (fun name => (env name).getD []) .text
  substitute_plain _ _ h := interpolate_of_notMem _ h
  substitute_short c _ _ h hvalue :=
    length_interpolate_lt (fun _ => (List.length_singleton (a := c)).le) h hvalue
  unescape := id
  unescape_short _ := Nat.le_refl _

end Dotenv

end Yeah.Compose
