import Yeah.Secrets.Encryption
import Yeah.Sql.Select
import Yeah.Text.Uuid
import Mathlib.Logic.Function.Basic

namespace Yeah.Secrets

open Sql Text

structure SecretColumn where
  table : String
  column : String
  deriving DecidableEq

def SecretColumn.label (c : SecretColumn) : String := c.table ++ "." ++ c.column

def SECRET_COLUMNS : List SecretColumn :=
  [⟨"servers", "private_key"⟩, ⟨"databases", "password"⟩, ⟨"s3_storages", "secret_access_key"⟩, ⟨"notification_channels", "url"⟩,
    ⟨"notification_channels", "telegram_bot_token"⟩, ⟨"notification_channels", "smtp_password"⟩, ⟨"applications", "env_content"⟩,
    ⟨"services", "env_content"⟩, ⟨"applications", "deploy_key"⟩, ⟨"servers", "cloudflare_tunnel_token"⟩,
    ⟨"notification_channels", "pushover_user_key"⟩, ⟨"notification_channels", "pushover_api_token"⟩, ⟨"registries", "password"⟩,
    ⟨"ssh_keys", "private_key"⟩, ⟨"git_sources", "token"⟩, ⟨"git_sources", "webhook_secret"⟩, ⟨"log_drains", "loki_password"⟩,
    ⟨"log_drains", "axiom_token"⟩, ⟨"log_drains", "new_relic_license_key"⟩, ⟨"log_drains", "aws_secret_access_key"⟩,
    ⟨"shared_variables", "value"⟩, ⟨"users", "totp_secret"⟩, ⟨"application_volumes", "file_content"⟩]

/-- A row by its id and its texts. -/
structure Row where
  id : Uuid
  value : String → Option String

/-- The rows of each table. -/
abbrev Db := String → List Row

/-- `update table set column = value where id = id`. -/
def Db.set (db : Db) (c : SecretColumn) (id : Uuid) (value : Option String) : Db := fun table =>
  if table = c.table then
    (db table).map fun r => if r.id = id then { r with value := Function.update r.value c.column value } else r
  else db table

/-- The rows that a statement selects: the id, and the text of its second column. -/
def Db.select (db : Db) (statement : String) : Except String (List (Uuid × Option String)) :=
  match parse statement with
  | none => .error "syntax error"
  | some q =>
      .ok (((db (String.ofList q.table)).filter fun r => q.tests.all fun t => t.condition.holds (r.value (String.ofList t.column))).map fun r =>
        (r.id, (q.columns[1]?).bind fun column => r.value (String.ofList column)))

def quotedName (name : String) : String := "\"" ++ name ++ "\""

/-- What `select({ id, value }).from(table).where(...)` sends. -/
def selectWhere (c : SecretColumn) (condition : String) : String :=
  "select " ++ quotedName "id" ++ ", " ++ quotedName c.column ++ " " ++ "from " ++ quotedName c.table ++
    " " ++ "where " ++ condition

/-- How a column is written in a condition. -/
def SecretColumn.sql (c : SecretColumn) : String := quotedName c.table ++ "." ++ quotedName c.column

inductive Pass
  | encryptExistingSecrets
  | reencryptSecrets
  deriving DecidableEq

/-- The condition as each of the two writes it. -/
def Pass.condition (c : SecretColumn) : Pass → String
  | .encryptExistingSecrets => c.sql ++ " is not null and " ++ c.sql ++ " <> '' and " ++ c.sql ++ " not like 'enc:v1:%'"
  | .reencryptSecrets => c.sql ++ " like enc:v1:%"

def Pass.statement (pass : Pass) (c : SecretColumn) : String := selectWhere c (pass.condition c)

def Pass.message (c : SecretColumn) (id : Uuid) (e : String) : Pass → String
  | .encryptExistingSecrets => "[db] failed to encrypt " ++ c.label ++ " for row " ++ id.text ++ ": " ++ e
  | .reencryptSecrets => c.label ++ " (" ++ id.text ++ "): " ++ e

/-- How many values were written, and the messages about those that were not. -/
structure Outcome where
  written : Nat
  failed : List String

/-- What the calls outside of the passes do: the update of a value may fail, and each value is encrypted with new bytes. -/
structure World where
  updateError : SecretColumn → Uuid → Option String
  iv : SecretColumn → Uuid → List UInt8
  iv_length : ∀ c id, (iv c id).length = IV_BYTES

section Run

variable {Key : Type} (cipher : Cipher Key) (lossy : List UInt8 → String) (cache : Option (Ring Key)) (config : Config)

/-- The plaintext that a pass writes back; `none` where it skips the value. The ring is the same for all calls. -/
def Pass.plaintext (value : String) : Pass → Except String (Option String)
  | .encryptExistingSecrets => .ok (if isEncrypted value then none else some value)
  | .reencryptSecrets =>
      if usesCurrentKey cipher cache config value then .ok none else (decryptSecret cipher lossy cache config value).map some

def Pass.row (pass : Pass) (world : World) (c : SecretColumn) (s : Db × Outcome) (row : Uuid × String) :
    Db × Outcome :=
  let fail (e : String) : Db × Outcome :=
    (s.1, { s.2 with failed := s.2.failed ++ [pass.message c row.1 e] })
  match pass.plaintext cipher lossy cache config row.2 with
  | .error e => fail e
  | .ok none => s
  | .ok (some plaintext) =>
      match encryptSecret cipher cache config (world.iv c row.1) plaintext, world.updateError c row.1 with
      | .error e, _ => fail e
      | .ok _, some e => fail e
      | .ok stored, none => (s.1.set c row.1 (some stored), { s.2 with written := s.2.written + 1 })

/-- The outer loop: a select that fails ends the pass. -/
def Pass.columns (pass : Pass) (world : World) :
    List SecretColumn → Db × Outcome → Except String Outcome × Db
  | [], s => (.ok s.2, s.1)
  | c :: cs, s =>
      match s.1.select (pass.statement c) with
      | .error e => (.error e, s.1)
      | .ok rows =>
          pass.columns world cs ((rows.filterMap fun r => r.2.map (r.1, ·)).foldl (pass.row cipher lossy cache config world c) s)

def Pass.run (pass : Pass) (world : World) (db : Db) : Except String Outcome × Db :=
  pass.columns cipher lossy cache config world SECRET_COLUMNS (db, ⟨0, []⟩)

end Run

section Statements

variable {c : SecretColumn}

/-- A name that can stand between double quotes. -/
structure SecretColumn.Plain (c : SecretColumn) : Prop where
  table : '"' ∉ c.table.toList
  column : '"' ∉ c.column.toList

theorem plain_of_mem (h : c ∈ SECRET_COLUMNS) : c.Plain := by
  have hall : ∀ c ∈ SECRET_COLUMNS, '"' ∉ c.table.toList ∧ '"' ∉ c.column.toList := by
    simp [SECRET_COLUMNS]
  exact ⟨(hall c h).1, (hall c h).2⟩

theorem lexes_quotedName {name : String} (h : '"' ∉ name.toList) {c : Char} {l : List Token} (hc : c ≠ '"')
    (ho : opened c = (l, .start)) : Lexes ((quotedName name).toList ++ [c]) (.quoted name.toList :: l) := by
  have hname := lexes_quoted h hc ho
  rwa [show '"' :: (name.toList ++ ['"', c]) = (quotedName name).toList ++ [c] by simp [quotedName]] at hname

theorem lexes_sql (h : c.Plain) :
    Lexes (c.sql.toList ++ [' ']) [.quoted c.table.toList, .symbol '.', .quoted c.column.toList] := by
  have htable := lexes_quotedName h.table (c := '.') (l := [.symbol '.']) (by decide) rfl
  have hcolumn := lexes_quotedName h.column (c := ' ') (l := []) (by decide) rfl
  have hall := htable.append hcolumn
  rwa [← List.append_assoc, show ['.'] = ".".toList from rfl, ← String.toList_append, ← String.toList_append] at hall

theorem lexes_select : Lexes "select ".toList [keyword "select"] := by
  intro rest
  simp [lex, opened, isQuote, isBlank, isWordStart, isWordPart, keyword, Function.comp_def]

theorem lexes_from : Lexes "from ".toList [keyword "from"] := by
  intro rest
  simp [lex, opened, isQuote, isBlank, isWordStart, isWordPart, keyword, Function.comp_def]

theorem lexes_where : Lexes "where ".toList [keyword "where"] := by
  intro rest
  simp [lex, opened, isQuote, isBlank, isWordStart, isWordPart, keyword, Function.comp_def]

theorem lexes_blank : Lexes [' '] [] := by
  intro rest
  simp [lex, opened, isQuote, isBlank]

theorem lex_selectWhere (h : c.Plain) (condition : String) :
    lex .start (selectWhere c condition).toList = (lex .start condition.toList).map
      ([keyword "select", .quoted "id".toList, .symbol ',', .quoted c.column.toList, keyword "from", .quoted c.table.toList,
        keyword "where"] ++ ·) := by
  have hid :=
    lexes_quotedName (show '"' ∉ "id".toList by simp) (c := ',') (l := [.symbol ',']) (by decide) rfl
  have hcolumn := lexes_quotedName h.column (c := ' ') (l := []) (by decide) rfl
  have htable := lexes_quotedName h.table (c := ' ') (l := []) (by decide) rfl
  have hall :=
    lexes_select.append (hid.append (lexes_blank.append (hcolumn.append (lexes_from.append (htable.append lexes_where)))))
  have htext : (selectWhere c condition).toList = "select ".toList ++
    (((quotedName "id").toList ++ [',']) ++ ([' '] ++
      (((quotedName c.column).toList ++ [' ']) ++ ("from ".toList ++ (((quotedName c.table).toList ++ [' ']) ++ "where ".toList))))) ++
      condition.toList := by
    have hcomma : ", ".toList = [','] ++ [' '] := by simp
    have hblank : " ".toList = [' '] := by simp
    change ("select " ++ quotedName "id" ++ ", " ++ quotedName c.column ++ " " ++ "from " ++ quotedName c.table ++ " " ++ "where " ++
      condition).toList = _
    simp only [String.toList_append, List.append_assoc, hcomma, hblank, -String.reduceToList]
  rw [htext, hall]
  rfl

theorem parse_encrypt (h : c.Plain) :
    parse (Pass.encryptExistingSecrets.statement c) =
      some ⟨["id".toList, c.column.toList], c.table.toList,
        [⟨c.table.toList, c.column.toList, .notNull⟩, ⟨c.table.toList, c.column.toList, .ne []⟩,
          ⟨c.table.toList, c.column.toList, .notLike "enc:v1:%".toList⟩]⟩ := by
  have hnull : Lexes "is not null and ".toList (["is", "not", "null", "and"].map keyword) :=
    fun rest => by
    simp [lex, opened, isQuote, isBlank, isWordStart, isWordPart, keyword, Function.comp_def]
  have hempty : Lexes "<> '' and ".toList [.symbol '<', .symbol '>', .text [], keyword "and"] :=
    fun rest => by
    simp [lex, opened, isQuote, isBlank, isWordStart, isWordPart, quoteToken, keyword, Function.comp_def]
  have hlike : lex .start "not like 'enc:v1:%'".toList =
      some [keyword "not", keyword "like", .text "enc:v1:%".toList] := by
    simp [lex, opened, isQuote, isBlank, isWordStart, isWordPart, quoteToken, keyword]
  have hcol := lexes_sql h
  have hsplit : " is not null and ".toList = [' '] ++ "is not null and ".toList ∧
    " <> '' and ".toList = [' '] ++ "<> '' and ".toList ∧
      " not like 'enc:v1:%'".toList = [' '] ++ "not like 'enc:v1:%'".toList := by simp
  have hall :=
    (hcol.append (hnull.append (hcol.append (hempty.append hcol)))) "not like 'enc:v1:%'".toList
  have hcondition : lex .start (Pass.encryptExistingSecrets.condition c).toList = some
      ([.quoted c.table.toList, .symbol '.', .quoted c.column.toList, keyword "is", keyword "not", keyword "null"] ++ keyword "and" ::
        ([.quoted c.table.toList, .symbol '.', .quoted c.column.toList, .symbol '<', .symbol '>', .text []] ++ keyword "and" ::
          [.quoted c.table.toList, .symbol '.', .quoted c.column.toList, keyword "not", keyword "like", .text "enc:v1:%".toList])) := by
    rw [hlike] at hall
    change lex .start (c.sql ++ " is not null and " ++ c.sql ++ " <> '' and " ++ c.sql ++ " not like 'enc:v1:%'").toList = _
    simp only [String.toList_append, hsplit.1, hsplit.2.1, hsplit.2.2, List.append_assoc,
      -String.reduceToList]
    simp only [List.append_assoc, -String.reduceToList] at hall
    rw [hall]
    rfl
  rw [parse, Pass.statement, lex_selectWhere h, hcondition, Option.map_some, Option.bind_some, query_select,
    conditions_and (by simp [keyword]), conditions_and (by simp [keyword]), conditions_last (by simp [keyword])]
  simp [test, condition, keyword]

/-- The pattern of reencryptSecrets has no quotes: no statement. -/
theorem parse_reencrypt (h : c.Plain) : parse (Pass.reencryptSecrets.statement c) = none := by
  have hlike : lex .start "like enc:v1:%".toList =
      some [keyword "like", keyword "enc", .symbol ':', keyword "v1", .symbol ':', .symbol '%'] := by
    simp [lex, opened, isQuote, isBlank, isWordStart, isWordPart, keyword]
  have hall := lexes_sql h "like enc:v1:%".toList
  have hcondition : lex .start (Pass.reencryptSecrets.condition c).toList = some
      [.quoted c.table.toList, .symbol '.', .quoted c.column.toList, keyword "like", keyword "enc", .symbol ':', keyword "v1",
        .symbol ':', .symbol '%'] := by
    rw [hlike] at hall
    change lex .start (c.sql ++ " like enc:v1:%").toList = _
    rw [String.toList_append, show " like enc:v1:%".toList = [' '] ++ "like enc:v1:%".toList by simp,
      ← List.append_assoc, hall]
    rfl
  rw [parse, Pass.statement, lex_selectWhere h, hcondition, Option.map_some, Option.bind_some, query_select,
    conditions_last (by simp [keyword])]
  simp [test, condition, keyword]

theorem select_encrypt (h : c.Plain) (db : Db) :
    db.select (Pass.encryptExistingSecrets.statement c) =
      .ok (((db c.table).filter fun r => (r.value c.column).any fun v => v ≠ "" ∧ !isEncrypted v).map fun r => (r.id, r.value c.column)) := by
  have htest (v : Option String) : ([Condition.notNull, .ne [], .notLike "enc:v1:%".toList].all fun k => k.holds v) =
      v.any fun v => v ≠ "" ∧ !isEncrypted v := by
    cases v with
    | none => rfl
    | some v =>
        have hlike : fits "enc:v1:%".toList v.toList = isEncrypted v :=
          fits_prefix (p := PREFIX.toList) (by simp [PREFIX, isWild]) v.toList
        simp only [List.all_cons, List.all_nil, Condition.holds, Option.any_some, hlike]
        simp
  rw [Db.select, parse_encrypt h]
  simp only [← htest, List.getElem?_cons_succ, List.getElem?_cons_zero, Option.bind_some,
    String.ofList_toList, List.all_cons, List.all_nil]

end Statements

end Yeah.Secrets
