import Yeah.Tokens.Isolation

namespace Yeah.Tokens

open Text Databases Noninterference Keyed

/-- The tables, but for when their tokens were last used. -/
def forgetUse (db : Tables) : Tables := { db with tokens := db.tokens.map ApiToken.unused }

/-! ### What a request is served has nothing to do with the tokens -/

def Tables.withTokens (tokens : List ApiToken) (db : Tables) : Tables := { db with tokens := tokens }

/-- A step that neither reads nor writes the tokens. -/
def Tokenless {ρ : Type} (f : Tables → Tables × ρ) : Prop :=
  ∀ db tokens, f (db.withTokens tokens) = ((f db).1.withTokens tokens, (f db).2)

section Tokenless

variable {ρ ρ' : Type} {parse : String → Option Uuid} {teamId i : Uuid} {token : ApiToken} {request : Request}

theorem Tokenless.answer (a : ρ) : Tokenless (Tokens.answer a) := fun _ _ => rfl

theorem Tokenless.query {q : Tables → ρ} (h : ∀ db tokens, q (db.withTokens tokens) = q db) :
    Tokenless (Tokens.query q) := by
  intro db tokens
  rw [Tokens.query, Tokens.query, h]

theorem Tokenless.mapAnswer {f : Tables → Tables × ρ} (h : Tokenless f) (g : ρ → ρ') :
    Tokenless (Noninterference.mapAnswer g f) := by
  intro db tokens
  rw [Noninterference.mapAnswer, h]
  rfl

theorem Tokenless.andThen {f : Tables → Tables × ρ} {g : ρ → Tables → Tables × ρ'} (hf : Tokenless f)
    (hg : ∀ a, Tokenless (g a)) : Tokenless (Noninterference.andThen f g) := by
  intro db tokens
  rw [Noninterference.andThen, hf, hg]
  rfl

theorem triggerDeploy_tokenless (given : Given) (force : Bool) : Tokenless (triggerDeploy given teamId i force) := by
  intro db tokens
  have hfind : findApplication teamId i (db.withTokens tokens) = findApplication teamId i db := rfl
  have hserver (a : Application) : ((db.withTokens tokens).servers.find? fun s => s.id = a.serverId) =
      db.servers.find? fun s => s.id = a.serverId := rfl
  rw [triggerDeploy, triggerDeploy, hfind]
  cases findApplication teamId i db with
  | none => rfl
  | some a =>
      dsimp only
      rw [hserver]
      split
      · rfl
      · split <;> rfl

theorem triggerBackup_tokenless : Tokenless (triggerBackup teamId i) := by
  intro db tokens
  have hdatabase : ((db.withTokens tokens).databases.find? fun d => d.id = i ∧ d.teamId = teamId) =
      db.databases.find? fun d => d.id = i ∧ d.teamId = teamId := rfl
  have hschedule (d : Database) : ((db.withTokens tokens).schedules.find? fun s => s.databaseId = d.id) =
      db.schedules.find? fun s => s.databaseId = d.id := rfl
  rw [triggerBackup, triggerBackup, hdatabase]
  cases db.databases.find? fun d => d.id = i ∧ d.teamId = teamId with
  | none => rfl
  | some d =>
      dsimp only
      rw [hschedule]
      cases db.schedules.find? fun s => s.databaseId = d.id <;> rfl

theorem moveResource_tokenless (kind : MovableKind) (r : Option Uuid) : Tokenless (moveResource teamId kind r i) := by
  intro db tokens
  have htarget : ((db.withTokens tokens).environments.find? fun e => e.id = i ∧
        ∃ p ∈ (db.withTokens tokens).projects, p.id = e.projectId ∧ p.teamId = teamId) =
      db.environments.find? fun e => e.id = i ∧ ∃ p ∈ db.projects, p.id = e.projectId ∧ p.teamId = teamId := rfl
  have hmove (r target : Uuid) : moveRow teamId kind r target (db.withTokens tokens) =
      ((moveRow teamId kind r target db).1.withTokens tokens, (moveRow teamId kind r target db).2) := by
    cases kind <;> rfl
  rw [moveResource, moveResource, htarget]
  split
  · rfl
  · split
    · rfl
    · rw [hmove]
      dsimp only
      split <;> rfl

theorem withId_tokenless (text : String) {f : Uuid → Tables → Tables × ρ} (h : ∀ id, Tokenless (f id)) :
    Tokenless (withId parse text f) := by
  rw [withId]
  split
  · exact Tokenless.answer _
  · exact (h _).mapAnswer _

theorem recorded_tokenless (action resourceType resourceId : String)
    {f : Tables → Tables × Option (ActionResult Content)} (h : Tokenless f) :
    Tokenless (recorded token request action resourceType resourceId f) := by
  apply h.andThen
  intro a
  split
  · exact fun _ _ => rfl
  · exact Tokenless.answer _

theorem runTool_tokenless (req : RpcRequest) (name : ToolName) :
    Tokenless (runTool req (mcpOps parse token request) name) := by
  cases name with
  | deployApplication =>
      exact (recorded_tokenless _ _ _
        (withId_tokenless _ fun id => (triggerDeploy_tokenless _ _).mapAnswer _)).mapAnswer _
  | backupDatabase =>
      exact (recorded_tokenless _ _ _ (withId_tokenless _ fun id => triggerBackup_tokenless.mapAnswer _)).mapAnswer _
  | _ => exact fun _ _ => rfl

theorem handleMcp_tokenless (req : RpcRequest) (readOnly : Bool) :
    Tokenless (handleMcp req (mcpOps parse token request) readOnly) := by
  apply handleMcp_cases Tokenless.answer fun name _ => runTool_tokenless req name
  intro q hq uri
  rw [List.mem_cons, List.mem_cons, List.mem_singleton] at hq
  obtain rfl | rfl | rfl := hq <;> exact fun _ _ => rfl

theorem writing_tokenless {f : Tables → Tables × Response} (h : Tokenless f) : Tokenless (writing token f) := by
  rw [writing]
  split
  · exact Tokenless.answer _
  · exact h

theorem lookup_tokenless (text : String) {f : Uuid → Tables → ActionResult Content}
    (h : ∀ id db tokens, f id (db.withTokens tokens) = f id db) : Tokenless (lookup parse text f) :=
  (withId_tokenless text fun id => Tokenless.query (h id)).mapAnswer _

theorem serve_tokenless (parse : String → Option Uuid) (token : ApiToken) (request : Request) :
    Tokenless (serve parse token request) := by
  rw [serve]
  split
  case _ => exact Tokenless.query fun _ _ => rfl
  case _ => exact Tokenless.query fun _ _ => rfl
  case _ => exact Tokenless.query fun _ _ => rfl
  case _ => exact Tokenless.query fun _ _ => rfl
  case _ => exact Tokenless.query fun _ _ => rfl
  case _ => exact Tokenless.query fun _ _ => rfl
  case _ => exact Tokenless.query fun _ _ => rfl
  case _ => exact Tokenless.query fun _ _ => rfl
  case _ => exact lookup_tokenless _ fun _ _ _ => rfl
  case _ => exact lookup_tokenless _ fun _ _ _ => rfl
  case _ =>
    split
    · exact Tokenless.answer _
    · exact lookup_tokenless _ fun _ _ _ => rfl
  case _ =>
    exact writing_tokenless ((withId_tokenless _ fun id => (triggerDeploy_tokenless _ _).mapAnswer _).mapAnswer _)
  case _ => exact writing_tokenless ((withId_tokenless _ fun id => triggerBackup_tokenless.mapAnswer _).mapAnswer _)
  case _ =>
    apply writing_tokenless
    split
    · exact Tokenless.answer _
    · exact (moveResource_tokenless _ _).mapAnswer _
  case _ =>
    apply Tokenless.andThen
    · exact Tokenless.query fun _ _ => rfl
    · intro enabled
      split
      · exact (handleMcp_tokenless _ _).mapAnswer _
      · exact Tokenless.answer _

end Tokenless

/-! ### A token that may only read -/

section

variable {ρ ρ' : Type} (sha256 : String → String) (parse : String → Option Uuid) {db : Tables} {token : ApiToken}

theorem ReadsOnly.mapAnswer {f : Tables → Tables × ρ} (h : ReadsOnly f) (g : ρ → ρ') :
    ReadsOnly (Noninterference.mapAnswer g f) := h

theorem lookup_reads (text : String) (f : Uuid → Tables → ActionResult Content) : ReadsOnly (lookup parse text f) := by
  rw [lookup, withId]
  split
  · exact answer_reads _
  · exact query_reads _

theorem writing_reads (h : token.permission ≠ .full) (f : Tables → Tables × Response) : ReadsOnly (writing token f) := by
  rw [writing, if_pos h]
  exact answer_reads _

theorem serve_reads (h : token.permission ≠ .full) (request : Request) : ReadsOnly (serve parse token request) := by
  rw [serve]
  split
  case _ => exact query_reads _
  case _ => exact query_reads _
  case _ => exact query_reads _
  case _ => exact query_reads _
  case _ => exact query_reads _
  case _ => exact query_reads _
  case _ => exact query_reads _
  case _ => exact query_reads _
  case _ => exact lookup_reads parse _ _
  case _ => exact lookup_reads parse _ _
  case _ =>
    split
    · exact answer_reads _
    · exact lookup_reads parse _ _
  case _ => exact writing_reads h _
  case _ => exact writing_reads h _
  case _ => exact writing_reads h _
  case _ =>
    intro db
    rw [andThen]
    split
    · rw [decide_eq_true h]
      exact handleMcp_reads db
    · rfl

/-! ### Runs -/

/-- The request carries a token that lets it write. -/
def mayWrite (db : Tables) (request : Request) : Bool :=
  match (derive sha256 request db).2 with
  | .ok token => token.permission = .full
  | .error _ => false

/-- The tokens are those of `db`, but for when they were last used. -/
def SameTokens (db s : Tables) : Prop := s.tokens.map ApiToken.unused = db.tokens.map ApiToken.unused

variable {s t : Tables} {request : Request}

theorem derive_same (h : SameTokens db s) (request : Request) :
    (derive sha256 request s).2.map ApiToken.unused = (derive sha256 request db).2.map ApiToken.unused := by
  have hrows (db : Tables) (raw : String) : admitted request (db.tokens.find? fun t => t.tokenHash = hashApiToken sha256 raw) =
      admitted request ((db.tokens.map ApiToken.unused).find? fun t => t.tokenHash = hashApiToken sha256 raw) := by
    rw [List.find?_map, admitted_unused]
    rfl
  rw [derive_snd, derive_snd]
  cases bearer request.authorization with
  | none => rfl
  | some raw => rw [Option.bind_some, Option.bind_some, hrows, hrows, h]

theorem derive_tokens (request : Request) (s : Tables) :
    ∃ tokens, tokens.map ApiToken.unused = s.tokens.map ApiToken.unused ∧
      (derive sha256 request s).1 = s.withTokens tokens := by
  obtain h | ⟨id, h⟩ := derive_fst sha256 request s
  · exact ⟨s.tokens, rfl, h⟩
  · refine ⟨_, ?_, h⟩
    rw [List.map_map]
    apply List.map_congr_left
    exact fun token _ => unused_used id _ token

/-- A request is refused, or served as if it had not marked its token as used. -/
theorem handle_spec (request : Request) (s : Tables) :
    ∃ tokens, tokens.map ApiToken.unused = s.tokens.map ApiToken.unused ∧ handle sha256 parse request s =
      match (derive sha256 request s).2.map ApiToken.unused with
      | .error (status, error) => (s.withTokens tokens, .refused status error none)
      | .ok token => ((serve parse token request s).1.withTokens tokens, (serve parse token request s).2) := by
  obtain ⟨tokens, htokens, h⟩ := derive_tokens sha256 request s
  refine ⟨tokens, htokens, ?_⟩
  rw [handle, andThen, h]
  cases (derive sha256 request s).2 with
  | error e => rfl
  | ok token => exact serve_tokenless parse token request s tokens

theorem mayWrite_eq (request : Request) (s : Tables) : mayWrite sha256 s request =
    match (derive sha256 request s).2.map ApiToken.unused with
    | .ok token => decide (token.permission = .full)
    | .error _ => false := by
  rw [mayWrite]
  cases (derive sha256 request s).2 <;> rfl

theorem serve_tokens (token : ApiToken) (request : Request) (s : Tables) :
    (serve parse token request s).1.tokens = s.tokens :=
  congrArg (fun r => r.1.tokens) (serve_tokenless parse token request s s.tokens)

theorem forgetUse_withTokens {tokens : List ApiToken} (h : tokens.map ApiToken.unused = s.tokens.map ApiToken.unused) :
    forgetUse (s.withTokens tokens) = forgetUse s := by
  rw [forgetUse, Tables.withTokens, h]
  rfl

theorem handle_keeps (hs : SameTokens db s) (request : Request) :
    SameTokens db (handle sha256 parse request s).1 := by
  obtain ⟨tokens, htokens, h⟩ := handle_spec sha256 parse request s
  rw [h]
  split
  · exact htokens.trans hs
  · exact htokens.trans hs

theorem handle_hidden (hs : SameTokens db s) (hwrite : mayWrite sha256 db request = false) :
    forgetUse (handle sha256 parse request s).1 = forgetUse s := by
  obtain ⟨tokens, htokens, h⟩ := handle_spec sha256 parse request s
  rw [mayWrite_eq, ← derive_same sha256 hs] at hwrite
  rw [h]
  split at hwrite
  next token htoken =>
    have hread : token.permission ≠ .full := of_decide_eq_false hwrite
    rw [htoken]
    dsimp only
    rw [serve_reads parse hread request s, forgetUse_withTokens htokens]
  next e he =>
    rw [he]
    exact forgetUse_withTokens htokens

theorem handle_congr (h : forgetUse s = forgetUse t) (request : Request) :
    (handle sha256 parse request s).2 = (handle sha256 parse request t).2 ∧
      forgetUse (handle sha256 parse request s).1 = forgetUse (handle sha256 parse request t).1 := by
  have htokens : SameTokens s t := (congrArg Tables.tokens h).symm
  have hrest : t = s.withTokens t.tokens :=
    calc t = (forgetUse t).withTokens t.tokens := rfl
      _ = (forgetUse s).withTokens t.tokens := by rw [h]
      _ = s.withTokens t.tokens := rfl
  have hserve (token : ApiToken) : serve parse token request t =
      ((serve parse token request s).1.withTokens t.tokens, (serve parse token request s).2) := by
    have hs := serve_tokenless parse token request s t.tokens
    rwa [← hrest] at hs
  obtain ⟨tokens, hst, hs⟩ := handle_spec sha256 parse request s
  obtain ⟨tokens', htt, ht⟩ := handle_spec sha256 parse request t
  rw [derive_same sha256 htokens] at ht
  rw [hs, ht]
  split
  next => exact ⟨rfl, by rw [forgetUse_withTokens hst, forgetUse_withTokens htt, h]⟩
  next token _ =>
    rw [hserve]
    refine ⟨rfl, ?_⟩
    have hcalls : forgetUse ((serve parse token request s).1.withTokens tokens) =
        forgetUse (serve parse token request s).1 := forgetUse_withTokens (by rw [serve_tokens, hst])
    rw [hcalls]
    exact (forgetUse_withTokens (by rw [serve_tokens, htt, htokens])).symm

/-- A request whose token may only read, or that has none, is not noticed by the requests that write. -/
theorem readers_unnoticed (db : Tables) (es : List Request) :
    ((runOne (fun db e => handle sha256 parse e db) db es).filter fun p => mayWrite sha256 db p.1) =
        runOne (fun db e => handle sha256 parse e db) db (es.filter (mayWrite sha256 db)) ∧
      forgetUse (finalOne (fun db e => handle sha256 parse e db) db es) =
        forgetUse (finalOne (fun db e => handle sha256 parse e db) db (es.filter (mayWrite sha256 db))) :=
  run_visible (fun _ e hs => handle_keeps sha256 parse hs e) (fun _ _ hs => handle_hidden sha256 parse hs)
    (fun _ _ e _ _ _ h => (handle_congr sha256 parse h e).1) (fun _ _ e _ _ _ h => (handle_congr sha256 parse h e).2)
    es rfl rfl rfl

end

end Yeah.Tokens
