import Yeah.Tokens.Api

namespace Yeah.Tokens

open Text Databases Noninterference Keyed

/-! ### What a path shows -/

def uuidOf (text : String) : Option Uuid :=
  if h : text.length = 36 ∧ (text.toList.all fun c => c.isAlphanum || c = '-') = true then
    some ⟨text, h.1, fun c hc => by simpa using List.all_eq_true.1 h.2 c hc⟩
  else none

theorem uuidOf_text (id : Uuid) : uuidOf id.text = some id := by
  have hplain : (id.text.toList.all fun c => c.isAlphanum || c = '-') = true :=
    List.all_eq_true.2 fun c hc => by simpa using id.plain c hc
  exact dif_pos ⟨id.length_eq, hplain⟩

theorem text_of_uuidOf {text : String} {id : Uuid} (h : uuidOf text = some id) : id.text = text := by
  rw [uuidOf] at h
  split at h
  · rw [← Option.some.inj h]
  · cases h

/-- The rows of the team that a path names, if it names one at all. -/
def view (path : String) (db : Tables) : Option Tables := (uuidOf path).map fun teamId => restrict teamId db

theorem view_text (teamId : Uuid) (db : Tables) : view teamId.text db = some (restrict teamId db) := by
  rw [view, uuidOf_text]
  rfl

theorem confined_path {ρ : Type} {teamId : Uuid} {f : Tables → Tables × ρ} (h : Confined restrict Unique teamId f) :
    Confined view Unique teamId.text f where
  keeps := h.keeps
  answers s t hs ht hview := by
    rw [view_text, view_text] at hview
    exact h.answers s t hs ht (Option.some.inj hview)
  moves s t hs ht hview := by
    rw [view_text, view_text] at hview ⊢
    rw [h.moves s t hs ht (Option.some.inj hview)]
  others s path hs hpath := by
    rw [view, view]
    cases hid : uuidOf path with
    | none => rfl
    | some other =>
        have hne : other ≠ teamId := fun he => hpath (by rw [← text_of_uuidOf hid, he])
        rw [Option.map_some, Option.map_some, h.others s other hs hne]

section

variable (sha256 : String → String) {parse : String → Option Uuid} {db : Tables} {request : Request} {token : ApiToken}

/-! ### The token of a request -/

theorem find?_filter_of_nodup {α κ : Type} [DecidableEq κ] {key : α → κ} {p : α → Bool} {k : κ} {l : List α}
    (h : (l.map key).Nodup) : (l.filter p).find? (fun a => key a = k) = (l.find? fun a => key a = k).filter p := by
  have hkey {a b : α} (ha : a ∈ l) (hb : b ∈ l) (hka : decide (key a = k) = true) (hkb : decide (key b = k) = true) :
      a = b := List.inj_on_of_nodup_map h ha hb ((of_decide_eq_true hka).trans (of_decide_eq_true hkb).symm)
  cases hfind : l.find? fun a => key a = k with
  | none =>
      rw [List.find?_eq_none] at hfind
      exact List.find?_eq_none.2 fun a ha => hfind a (List.mem_filter.1 ha).1
  | some b =>
      have hb := List.mem_of_find?_eq_some hfind
      have hkb := List.find?_some hfind
      cases hp : p b with
      | true =>
          rw [Option.filter_some_pos hp, ← hfind]
          exact find?_filter_of_imp fun a ha hka => by rw [hkey ha hb hka hkb, hp]
      | false =>
          rw [Option.filter_some_neg (by simp [hp])]
          refine List.find?_eq_none.2 fun a ha hka => ?_
          obtain ⟨hmem, hpa⟩ := List.mem_filter.1 ha
          rw [hkey hmem hb hka hkb, hp] at hpa
          cases hpa

@[simp] theorem unused_used (id : Uuid) (now : Int) (t : ApiToken) : (t.used id now).unused = t.unused := by
  rw [ApiToken.used]
  split <;> rfl

theorem restrict_used (id : Uuid) (now : Int) (teamId : Uuid) :
    restrict teamId { db with tokens := db.tokens.map (ApiToken.used id now) } = restrict teamId db := by
  have hteam : ((fun t : ApiToken => decide (t.teamId = teamId)) ∘ ApiToken.used id now) =
      fun t => decide (t.teamId = teamId) := by
    funext t
    rw [Function.comp_apply, ApiToken.used]
    split <;> rfl
  have hunused : ApiToken.unused ∘ ApiToken.used id now = ApiToken.unused := funext (unused_used id now)
  have htokens : ((db.tokens.map (ApiToken.used id now)).filter fun t => t.teamId = teamId).map ApiToken.unused =
      (db.tokens.filter fun t => t.teamId = teamId).map ApiToken.unused := by
    rw [List.filter_map, hteam, List.map_map, hunused]
  conv_lhs => rw [restrict]
  rw [htokens]
  rfl

theorem unique_used (h : Unique db) (id : Uuid) (now : Int) :
    Unique { db with tokens := db.tokens.map (ApiToken.used id now) } := by
  refine ⟨h.applications, h.databases, ?_⟩
  have hhash : ApiToken.tokenHash ∘ ApiToken.used id now = ApiToken.tokenHash := by
    funext t
    rw [Function.comp_apply, ApiToken.used]
    split <;> rfl
  rw [List.map_map, hhash]
  exact h.tokens

/-- A request marks a token as used, if it changes anything before it is served. -/
theorem derive_fst (request : Request) (db : Tables) : (derive sha256 request db).1 = db ∨
    ∃ id, (derive sha256 request db).1 = { db with tokens := db.tokens.map (ApiToken.used id request.given.now) } := by
  have hresolved : (derive sha256 request db).1 =
      (resolveApiToken sha256 request.authorization request.given.now db).1 := by
    rw [derive]
    split
    next h => rw [h]
    next h =>
      rw [h]
      split
      · rfl
      · split <;> rfl
  rw [hresolved, resolveApiToken]
  split
  · exact Or.inl rfl
  · split
    · exact Or.inl rfl
    · split
      · exact Or.inl rfl
      · exact Or.inr ⟨_, rfl⟩

/-- What a request is told about the token that it has been found to carry. -/
def admitted (request : Request) : Option ApiToken → Except (Nat × String) ApiToken
  | none => .error (401, "unauthorized")
  | some token =>
      if token.expiresAt.any (· < request.given.now) then .error (401, "unauthorized")
      else if token.teamId.text ≠ request.teamId then .error (401, "unauthorized")
      else if Accounts.ipAllowed request.ip token.allowedIps then .ok token.unused
      else .error (403, "IP not allowed for this token")

theorem derive_snd (request : Request) (db : Tables) : (derive sha256 request db).2.map ApiToken.unused =
    admitted request ((bearer request.authorization).bind fun raw =>
      db.tokens.find? fun t => t.tokenHash = hashApiToken sha256 raw) := by
  rw [derive, resolveApiToken]
  cases hraw : bearer request.authorization with
  | none => rfl
  | some raw =>
      dsimp only [Option.bind_some]
      cases htoken : db.tokens.find? fun t => t.tokenHash = hashApiToken sha256 raw with
      | none => rfl
      | some token =>
          dsimp only
          rw [admitted]
          by_cases hexpired : token.expiresAt.any (· < request.given.now) = true
          · rw [if_pos hexpired, if_pos hexpired]
            rfl
          · rw [if_neg hexpired, if_neg hexpired]
            dsimp only
            split
            · rfl
            · split <;> rfl

theorem admitted_filter (o : Option ApiToken) :
    admitted request (o.filter fun t => t.teamId.text = request.teamId) = admitted request o := by
  cases o with
  | none => rfl
  | some token =>
      by_cases hteam : token.teamId.text = request.teamId
      · rw [Option.filter_some_pos (by simpa using hteam)]
      · rw [Option.filter_some_neg (by simpa using hteam), admitted, admitted, if_pos hteam, ite_self]

theorem admitted_unused (o : Option ApiToken) : admitted request (o.map ApiToken.unused) = admitted request o := by
  cases o <;> rfl

theorem admitted_ok {o : Option ApiToken} (h : admitted request o = .ok token) : token.teamId.text = request.teamId := by
  cases o with
  | none => cases h
  | some found =>
      rw [admitted] at h
      split at h
      · cases h
      · split at h
        · cases h
        · split at h
          · cases h
            exact not_not.1 ‹_›
          · cases h

/-- No team is told anything about the tokens of another. -/
theorem derive_restrict {teamId : Uuid} (h : Unique db) (hteam : teamId.text = request.teamId) :
    (derive sha256 request (restrict teamId db)).2.map ApiToken.unused =
      (derive sha256 request db).2.map ApiToken.unused := by
  rw [derive_snd, derive_snd]
  cases bearer request.authorization with
  | none => rfl
  | some raw =>
      have hsame : (fun t : ApiToken => decide (t.teamId = teamId)) = fun t => decide (t.teamId.text = request.teamId) := by
        funext t
        rw [← hteam]
        exact decide_eq_decide.2 ⟨congrArg Uuid.text, Uuid.ext_text⟩
      have hrows : ((restrict teamId db).tokens.find? fun t => t.tokenHash = hashApiToken sha256 raw) =
          ((db.tokens.find? fun t => t.tokenHash = hashApiToken sha256 raw).filter fun t =>
            t.teamId.text = request.teamId).map ApiToken.unused := by
        rw [restrict, List.find?_map, hsame, ← find?_filter_of_nodup h.tokens]
        rfl
      rw [Option.bind_some, Option.bind_some, hrows, admitted_unused, admitted_filter]

theorem derive_view (request : Request) (path : String) (db : Tables) :
    view path (derive sha256 request db).1 = view path db := by
  obtain h | ⟨id, h⟩ := derive_fst sha256 request db
  · rw [h]
  · rw [h, view, view]
    cases uuidOf path with
    | none => rfl
    | some teamId => rw [Option.map_some, restrict_used, Option.map_some]

theorem derive_confined (request : Request) :
    Confined view Unique request.teamId (mapAnswer (Except.map ApiToken.unused) (derive sha256 request)) where
  keeps s hs := by
    rw [mapAnswer]
    obtain h | ⟨id, h⟩ := derive_fst sha256 request s
    · rw [h]
      exact hs
    · rw [h]
      exact unique_used hs id _
  answers s t hs ht hview := by
    rw [mapAnswer, mapAnswer]
    cases hid : uuidOf request.teamId with
    | none =>
        have hnone (o : Option ApiToken) : admitted request o = .error (401, "unauthorized") := by
          cases o with
          | none => rfl
          | some token =>
              have hteam : token.teamId.text ≠ request.teamId := by
                intro he
                rw [← he, uuidOf_text] at hid
                cases hid
              rw [admitted, if_pos hteam, ite_self]
        rw [derive_snd, derive_snd, hnone, hnone]
    | some teamId =>
        have hteam := text_of_uuidOf hid
        rw [← hteam, view_text, view_text] at hview
        rw [← derive_restrict sha256 hs hteam, Option.some.inj hview, derive_restrict sha256 ht hteam]
  moves s t hs ht hview := by rw [mapAnswer, mapAnswer, derive_view, derive_view, hview]
  others s path hs hpath := derive_view sha256 request path s

/-! ### What it is served -/

variable (parse)

theorem withId_confined {ρ : Type} {teamId : Uuid} {f : Uuid → Tables → Tables × ρ} (text : String)
    (h : ∀ id, Confined restrict Unique teamId (f id)) : Confined restrict Unique teamId (withId parse text f) := by
  rw [withId]
  split
  · exact answer_confined _
  · exact (h _).mapAnswer _

theorem restrict_audit {teamId : Uuid} (r : AuditEvent) : restrict teamId { db with audit := db.audit ++ [r] } =
    if r.teamId = teamId then { restrict teamId db with audit := (restrict teamId db).audit ++ [r] }
    else restrict teamId db := by
  have haudit : restrict teamId { db with audit := db.audit ++ [r] } =
      { restrict teamId db with audit := (db.audit ++ [r]).filter fun e => e.teamId = teamId } := rfl
  rw [haudit, List.filter_append, List.filter_singleton, Bool.cond_decide]
  split
  · rfl
  · rw [List.append_nil]
    rfl

/-- An audit row is written for the team of the token. -/
theorem recordTokenAction_confined (action resourceType resourceId : String) (a : Option (ActionResult Content)) :
    Confined restrict Unique token.teamId fun db =>
      (recordTokenAction token request action resourceType resourceId db, a) := by
  apply Confined.of_view
  · exact fun db h => ⟨h.applications, h.databases, h.tokens⟩
  · exact fun db h => rfl
  · intro db h
    dsimp only
    rw [recordTokenAction, recordTokenAction, restrict_audit, restrict_audit, if_pos rfl, if_pos rfl, restrict_restrict]
  · intro db j h hj
    dsimp only
    rw [recordTokenAction, restrict_audit, if_neg fun he => hj he.symm]

theorem recorded_confined (action resourceType resourceId : String)
    {f : Tables → Tables × Option (ActionResult Content)} (h : Confined restrict Unique token.teamId f) :
    Confined restrict Unique token.teamId (recorded token request action resourceType resourceId f) := by
  apply h.andThen
  intro s _
  split
  · exact recordTokenAction_confined action resourceType resourceId _
  · exact answer_confined _

theorem mcpOps_within : (mcpOps parse token request).Within token.teamId where
  listApplications db := congrArg Content.applications listApplications_restrict
  listDatabases db := congrArg Content.databases listDatabases_restrict
  listServices db := congrArg Content.services listServices_restrict
  listDeployments text db := by
    dsimp only [mcpOps]
    congr 1
    funext id
    rw [listDeployments_restrict]
  deploy text force := recorded_confined _ _ _
    (withId_confined parse text fun id => (triggerDeploy_confined request.given force).mapAnswer _)
  backup text := recorded_confined _ _ _ (withId_confined parse text fun id => triggerBackup_confined.mapAnswer _)

theorem writing_confined {f : Tables → Tables × Response} (h : Confined restrict Unique token.teamId f) :
    Confined restrict Unique token.teamId (writing token f) := by
  rw [writing]
  split
  · exact answer_confined _
  · exact h

theorem lookup_confined {teamId : Uuid} (text : String) {f : Uuid → Tables → ActionResult Content}
    (h : ∀ id db, f id (restrict teamId db) = f id db) : Confined restrict Unique teamId (lookup parse text f) :=
  (withId_confined parse text fun id => query_confined (h id)).mapAnswer _

theorem serve_confined (token : ApiToken) (request : Request) :
    Confined restrict Unique token.teamId (serve parse token request) := by
  rw [serve]
  split
  case _ => exact query_confined fun db => congrArg (Response.ok ∘ Content.applications) listApplications_restrict
  case _ => exact query_confined fun db => congrArg (Response.ok ∘ Content.databases) listDatabases_restrict
  case _ => exact query_confined fun db => congrArg (Response.ok ∘ Content.services) listServices_restrict
  case _ => exact query_confined fun db => congrArg (Response.ok ∘ Content.servers) listServers_restrict
  case _ => exact query_confined fun db => congrArg (Response.ok ∘ Content.projects) listProjects_restrict
  case _ => exact query_confined fun db => congrArg (Response.ok ∘ Content.storages) listStorages_restrict
  case _ =>
    exact query_confined fun db =>
      congrArg (Response.ok ∘ Content.notificationChannels) listNotificationChannels_restrict
  case _ => exact query_confined fun db => congrArg (Response.ok ∘ Content.scheduledTasks) listScheduledTasks_restrict
  case _ => exact lookup_confined parse _ fun id db => congrArg _ listDeployments_restrict
  case _ => exact lookup_confined parse _ fun id db => congrArg _ listPreviews_restrict
  case _ =>
    split
    · exact answer_confined _
    · exact lookup_confined parse _ fun id db => congrArg _ getPreview_restrict
  case _ =>
    exact writing_confined ((withId_confined parse _ fun id => (triggerDeploy_confined _ _).mapAnswer _).mapAnswer _)
  case _ => exact writing_confined ((withId_confined parse _ fun id => triggerBackup_confined.mapAnswer _).mapAnswer _)
  case _ =>
    apply writing_confined
    split
    · exact answer_confined _
    · exact (moveResource_confined _).mapAnswer _
  case _ =>
    apply Confined.andThen
    · apply query_confined
      intro db
      rw [restrict, find?_filter_of_imp fun _ _ h => h]
    · intro s _
      split
      · exact (handleMcp_confined (mcpOps_within parse)).mapAnswer _
      · exact answer_confined _

/-- What a request is answered once its token has been looked up. -/
def served (request : Request) : Except (Nat × String) ApiToken → Tables → Tables × Response
  | .error (status, error) => answer (.refused status error none)
  | .ok token => serve parse token request

theorem handle_confined (request : Request) :
    Confined view Unique request.teamId (handle sha256 parse request) := by
  have hunused : handle sha256 parse request =
      andThen (mapAnswer (Except.map ApiToken.unused) (derive sha256 request)) (served parse request) := by
    funext db
    rw [handle, andThen, andThen, mapAnswer]
    cases (derive sha256 request db).2 with
    | error e => rfl
    | ok token => rfl
  rw [hunused]
  apply (derive_confined sha256 request).andThen
  intro db _
  rw [mapAnswer, derive_snd]
  dsimp only
  cases h : admitted request ((bearer request.authorization).bind fun raw =>
      db.tokens.find? fun t => t.tokenHash = hashApiToken sha256 raw) with
  | error e => exact Confined.pure _
  | ok token =>
      rw [← admitted_ok h]
      exact confined_path (serve_confined parse token request)

end

/-! A team's token, and another's -/

def Uuid.a : Uuid := Uuid.fill 'a' Uuid.isAlphanum_a

theorem Uuid.isAlphanum_b : 'b'.isAlphanum = true := rfl

def Uuid.b : Uuid := Uuid.fill 'b' Uuid.isAlphanum_b

def twoTeams : Tables where
  tokens := [⟨Uuid.a, Uuid.a, "ci", "first", .full, none, none, none⟩, ⟨Uuid.b, Uuid.b, "ci", "second", .full, none, none, none⟩]
  teams := [⟨Uuid.a, true⟩, ⟨Uuid.b, false⟩]
  applications := [⟨Uuid.a, Uuid.a, Uuid.a, Uuid.a, "shop", .running, none, "main", none, none, 0⟩]
  deployments := []
  databases := []
  schedules := []
  services := []
  servers := []
  projects := []
  environments := []
  storages := []
  channels := []
  tasks := []
  deployJobs := []
  backupJobs := []
  audit := []

def deployBy (token : String) : Request :=
  ⟨Uuid.a.text, some ("Bearer " ++ token), "10.0.0.1", "/", ⟨1, some Uuid.b⟩, .deploy Uuid.a.text none⟩

end Yeah.Tokens
