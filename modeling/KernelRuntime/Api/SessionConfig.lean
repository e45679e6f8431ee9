import KernelRuntime.Security.Crypto
import KernelRuntime.AgentLoop.ConfigLoader
import KernelRuntime.Tools.DelegateTask

/-! # The configuration of a session

`update_session_config` encrypts the keys of a request and writes them into the context of the session.
Three readers take the provider's key from there: the loader of the brain, the sub-agents and the
mask. -/

namespace KernelRuntime.SessionConfig
open ConfigLoader
set_option autoImplicit false

structure SessionConfigRequest where
  model : Option String
  apiKey : Option String
  githubToken : Option String
  baseUrl : Option String
  extraBody : Option Fields

/-- What the routes call: the cipher, and `dict(v)` of a value that is no dictionary. -/
structure Runtime where
  fernet : Fernet
  dictOf : Json → Except PyError Fields

/-- `dict(v or {})`. -/
def asDict (rt : Runtime) : Json → Except PyError Fields
  | .obj fields => .ok fields
  | v => if v.truthy then rt.dictOf v else .ok []

def given (key : String) (v : Option Json) : Fields := (v.map fun v => (key, v)).toList

/-- `req.model_dump(exclude_none=True)`. -/
def SessionConfigRequest.dump (req : SessionConfigRequest) : Fields :=
  given "model" (req.model.map .str) ++ given "api_key" (req.apiKey.map .str) ++
    given "github_token" (req.githubToken.map .str) ++ given "base_url" (req.baseUrl.map .str) ++
    given "extra_body" (req.extraBody.map .obj)

/-- `ctx.update(patch)`. -/
def update (ctx patch : Fields) : Fields := patch.foldl (fun ctx e => assocSet e.1 e.2 ctx) ctx

/-- The key of the patch is encrypted, when it has one. -/
def encryptKey (rt : Runtime) (entropy : ℕ) (patch : Fields) : Fields :=
  match patch.lookup "api_key" with
  | some (.str key) =>
    if key = "" then patch else assocSet "api_key" (.str (encryptString rt.fernet entropy key)) patch
  | _ => patch

/-- The token of the patch moves into the `github` part of the context. -/
def moveToken (rt : Runtime) (entropy : ℕ) (ctx patch : Fields) : Except PyError (Fields × Fields) :=
  match patch.lookup "github_token" with
  | some (.str token) =>
    if token = "" then .ok (ctx, patch)
    else do
      let github ← asDict rt (Fields.get ctx "github")
      let github := assocSet "access_token" (.str (encryptString rt.fernet entropy token)) github
      return (assocSet "github" (.obj github) ctx, assocErase "github_token" patch)
  | _ => .ok (ctx, patch)

/-- The context that `update_session_config` commits. -/
def updatedContext (rt : Runtime) (keyEntropy tokenEntropy : ℕ) (req : SessionConfigRequest)
    (ctx : Fields) : Except PyError Fields := do
  let patch := encryptKey rt keyEntropy req.dump
  let (ctx, patch) ← moveToken rt tokenEntropy ctx patch
  return update ctx patch

/-- `ctx.get("github", {}).get("access_token")`. -/
def accessToken (ctx : Fields) : Except PyError Json :=
  ((ctx.lookup "github").getD (.obj [])).get "access_token"

def activeConfig (ctx : Fields) : Except PyError Json := do
  let token ← accessToken ctx
  return .obj [("model", Fields.get ctx "model"), ("base_url", Fields.get ctx "base_url"),
    ("has_api_key", .bool (Fields.get ctx "api_key").truthy), ("has_github_token", .bool token.truthy)]

/-- The row that the queries of the routes select. -/
def Owns (sessionId tenantId : String) (s : SessionModel) : Prop := s.id = sessionId ∧ s.tenantId = tenantId

instance (sessionId tenantId : String) (s : SessionModel) : Decidable (Owns sessionId tenantId s) :=
  inferInstanceAs (Decidable (_ ∧ _))

def httpException (status detail : String) : PyError := ⟨.other, status ++ ": " ++ detail⟩

def getSessionOr404 (db : Database) (sessionId tenantId : String) : Except PyError SessionModel :=
  match db.sessions.find? fun s => decide (Owns sessionId tenantId s) with
  | some session => .ok session
  | none => .error (httpException "404" "Session not found")

/-- `session.context = ctx`, committed. -/
def setContext (db : Database) (sessionId tenantId : String) (ctx : Fields) : Database :=
  { db with sessions := db.sessions.map fun s =>
      if Owns sessionId tenantId s then { s with context := ctx } else s }

/-- `update_session_config`: an exception before the commit, or the database after it and the
answer. -/
def updateSessionConfig (rt : Runtime) (keyEntropy tokenEntropy : ℕ) (db : Database)
    (sessionId tenantId : String) (req : SessionConfigRequest) :
    Except PyError (Database × Except PyError Json) := do
  let session ← getSessionOr404 db sessionId tenantId
  let ctx ← updatedContext rt keyEntropy tokenEntropy req session.context
  let answer := do
    let config ← activeConfig ctx
    return .obj [("session_id", .str sessionId), ("status", .str "config_updated"),
      ("active_config", config)]
  return (setContext db sessionId tenantId ctx, answer)

def maskSecret (value : String) (head tail : ℕ) : String :=
  if value = "" then ""
  else if head + tail < value.length then
    String.ofList (value.toList.take head) ++ "..." ++
      String.ofList (value.toList.drop (value.length - tail))
  else "••••"

structure ConfigView where
  model : Json
  baseUrl : Json
  apiKeyMasked : String
  githubTokenMasked : String
  extraBody : Json

/-- The plaintext of a stored secret, as the mask gets it. -/
def shownSecret (rt : Runtime) (stored : Json) : String :=
  if stored.truthy then decryptValue rt.fernet stored else ""

def getSessionConfig (rt : Runtime) (db : Database) (sessionId tenantId : String) :
    Except PyError ConfigView := do
  let session ← getSessionOr404 db sessionId tenantId
  let ctx := session.context
  let token ← accessToken ctx
  return {
    model := (ctx.lookup "model").getD (.str "")
    baseUrl := (ctx.lookup "base_url").getD (.str "")
    apiKeyMasked := maskSecret (shownSecret rt (Fields.get ctx "api_key")) 8 4
    githubTokenMasked := maskSecret (shownSecret rt token) 4 4
    extraBody := Fields.get ctx "extra_body" }

/-! ## What the routes store -/

section Fields

theorem lookup_update (ctx : Fields) {patch : Fields} (hnodup : (patch.map Prod.fst).Nodup) (k : String) :
    (update ctx patch).lookup k = (patch.lookup k).or (ctx.lookup k) := by
  induction patch generalizing ctx with
  | nil => rfl
  | cons e rest ih =>
    rw [List.map_cons, List.nodup_cons] at hnodup
    show (update (assocSet e.1 e.2 ctx) rest).lookup k = _
    rw [ih _ hnodup.2, lookup_assocSet]
    by_cases hk : k = e.1
    · have hrest : rest.lookup k = none := by
        rw [List.lookup_eq_none_iff]
        intro f hf
        have hne : k ≠ f.1 := fun hkf => hnodup.1 (hk ▸ hkf ▸ List.mem_map_of_mem hf)
        simpa using hne
      rw [hrest, if_pos hk, List.lookup_cons, beq_iff_eq.mpr hk]
      rfl
    · rw [if_neg hk, List.lookup_cons, beq_false_of_ne hk]

theorem lookup_given (key : String) (v : Option Json) (rest : Fields) (k : String) :
    (given key v ++ rest).lookup k = if k = key then v.or (rest.lookup k) else rest.lookup k := by
  cases v with
  | none =>
    show rest.lookup k = _
    rw [Option.none_or, ite_self]
  | some v =>
    show ((key, v) :: rest).lookup k = _
    rw [List.lookup_cons]
    by_cases hk : k = key
    · rw [if_pos hk, beq_iff_eq.mpr hk]
      rfl
    · rw [if_neg hk, beq_false_of_ne hk]

theorem keys_given (key : String) (v : Option Json) : ((given key v).map Prod.fst).Sublist [key] := by
  cases v with
  | none => exact List.nil_sublist _
  | some v => exact List.Sublist.refl _

theorem nodup_dump (req : SessionConfigRequest) : (req.dump.map Prod.fst).Nodup := by
  have hkeys : (req.dump.map Prod.fst).Sublist ["model", "api_key", "github_token", "base_url", "extra_body"] := by
    unfold SessionConfigRequest.dump
    simp only [List.map_append]
    exact ((((keys_given _ _).append (keys_given _ _)).append (keys_given _ _)).append
      (keys_given _ _)).append (keys_given _ _)
  exact hkeys.nodup (by decide)

theorem lookup_dump (req : SessionConfigRequest) (k : String) : req.dump.lookup k =
    if k = "model" then req.model.map .str else if k = "api_key" then req.apiKey.map .str
    else if k = "github_token" then req.githubToken.map .str
    else if k = "base_url" then req.baseUrl.map .str
    else if k = "extra_body" then req.extraBody.map .obj else none := by
  have hlast : (given "extra_body" (req.extraBody.map .obj)).lookup k =
      if k = "extra_body" then req.extraBody.map .obj else none := by
    have h := lookup_given "extra_body" (req.extraBody.map .obj) [] k
    rw [List.append_nil] at h
    rw [h, List.lookup_nil, Option.or_none]
  unfold SessionConfigRequest.dump
  simp only [List.append_assoc]
  rw [lookup_given, lookup_given, lookup_given, lookup_given, hlast]
  split_ifs <;> simp_all

end Fields

section Stored
variable {rt : Runtime} {keyEntropy tokenEntropy : ℕ} {req : SessionConfigRequest} {ctx ctx' : Fields}

theorem encryptKey_eq (rt : Runtime) (entropy : ℕ) (req : SessionConfigRequest) :
    encryptKey rt entropy req.dump = match req.apiKey with
      | some key =>
        if key = "" then req.dump
        else assocSet "api_key" (.str (encryptString rt.fernet entropy key)) req.dump
      | none => req.dump := by
  unfold encryptKey
  have hkey : req.dump.lookup "api_key" = req.apiKey.map .str := lookup_dump req "api_key"
  rw [hkey]
  cases req.apiKey <;> rfl

theorem nodup_encryptKey (rt : Runtime) (entropy : ℕ) (req : SessionConfigRequest) :
    ((encryptKey rt entropy req.dump).map Prod.fst).Nodup := by
  rw [encryptKey_eq]
  split
  · split_ifs
    · exact nodup_dump req
    · exact nodup_assocSet _ _ (nodup_dump req)
  · exact nodup_dump req

theorem lookup_encryptKey_ne (rt : Runtime) (entropy : ℕ) (req : SessionConfigRequest) {k : String}
    (hk : k ≠ "api_key") : (encryptKey rt entropy req.dump).lookup k = req.dump.lookup k := by
  rw [encryptKey_eq]
  split
  · split_ifs
    · rfl
    · rw [lookup_assocSet, if_neg hk]
  · rfl

/-- The patch behind the move has no token, and is otherwise as before; the context gets the token. -/
structure Moved (rt : Runtime) (entropy : ℕ) (ctx patch : Fields) (moved : Fields × Fields) : Prop where
  nodup : (moved.2.map Prod.fst).Nodup
  rest : ∀ k, k ≠ "github_token" → moved.2.lookup k = patch.lookup k
  context : ∀ k, k ≠ "github" → moved.1.lookup k = ctx.lookup k
  token : ∀ token, patch.lookup "github_token" = some (.str token) → token ≠ "" →
    ∃ github, moved.1.lookup "github" =
      some (.obj (assocSet "access_token" (.str (encryptString rt.fernet entropy token)) github))

theorem Moved.nothing {entropy : ℕ} {patch : Fields} (hnodup : (patch.map Prod.fst).Nodup)
    (hnone : ∀ token, patch.lookup "github_token" = some (.str token) → token = "") :
    Moved rt entropy ctx patch (ctx, patch) :=
  ⟨hnodup, fun _ _ => rfl, fun _ _ => rfl, fun token htoken hne => absurd (hnone token htoken) hne⟩

theorem moveToken_moved {entropy : ℕ} {patch : Fields} {moved : Fields × Fields}
    (h : moveToken rt entropy ctx patch = .ok moved) (hnodup : (patch.map Prod.fst).Nodup) :
    Moved rt entropy ctx patch moved := by
  unfold moveToken at h
  split at h
  next token htoken =>
    split_ifs at h with hempty
    · obtain rfl := Except.ok.inj h
      refine .nothing hnodup fun token' htoken' => ?_
      rw [htoken] at htoken'
      rw [← Json.str.inj (Option.some.inj htoken'), hempty]
    · obtain ⟨github, _, hmoved⟩ := bind_eq_ok_iff.mp h
      obtain rfl := Except.ok.inj hmoved
      refine ⟨nodup_assocErase _ hnodup, fun k hk => ?_, fun k hk => ?_, fun token' htoken' _ => ⟨github, ?_⟩⟩
      · rw [lookup_assocErase, if_neg hk]
      · rw [lookup_assocSet, if_neg hk]
      · rw [htoken] at htoken'
        rw [lookup_assocSet, if_pos rfl, Json.str.inj (Option.some.inj htoken')]
  next hother =>
    obtain rfl := Except.ok.inj h
    exact .nothing hnodup fun token htoken => absurd htoken (hother token)

theorem lookup_updatedContext (h : updatedContext rt keyEntropy tokenEntropy req ctx = .ok ctx') {k : String}
    (hgithub : k ≠ "github") (htoken : k ≠ "github_token") :
    ctx'.lookup k = ((encryptKey rt keyEntropy req.dump).lookup k).or (ctx.lookup k) := by
  obtain ⟨moved, hmoved, hupdate⟩ := bind_eq_ok_iff.mp h
  obtain rfl := Except.ok.inj hupdate
  have hspec := moveToken_moved hmoved (nodup_encryptKey rt keyEntropy req)
  rw [lookup_update _ hspec.nodup, hspec.rest k htoken, hspec.context k hgithub]

theorem apiKey_updatedContext (h : updatedContext rt keyEntropy tokenEntropy req ctx = .ok ctx') {key : String}
    (hkey : req.apiKey = some key) (hne : key ≠ "") :
    Fields.get ctx' "api_key" = .str (encryptString rt.fernet keyEntropy key) := by
  have hstored := lookup_updatedContext h (k := "api_key") (by decide) (by decide)
  rw [encryptKey_eq, hkey] at hstored
  simp only [if_neg hne, lookup_assocSet, if_true, Option.some_or] at hstored
  rw [Fields.get, hstored]
  rfl

theorem accessToken_updatedContext (h : updatedContext rt keyEntropy tokenEntropy req ctx = .ok ctx')
    {token : String} (htoken : req.githubToken = some token) (hne : token ≠ "") :
    accessToken ctx' = .ok (.str (encryptString rt.fernet tokenEntropy token)) := by
  obtain ⟨moved, hmoved, hupdate⟩ := bind_eq_ok_iff.mp h
  obtain rfl := Except.ok.inj hupdate
  have hspec := moveToken_moved hmoved (nodup_encryptKey rt keyEntropy req)
  have hgiven : (encryptKey rt keyEntropy req.dump).lookup "github_token" = some (.str token) := by
    rw [lookup_encryptKey_ne _ _ _ (by decide), lookup_dump, htoken]
    rfl
  obtain ⟨github, hgithub⟩ := hspec.token token hgiven hne
  have hnone : moved.2.lookup "github" = none := by
    rw [hspec.rest _ (by decide), lookup_encryptKey_ne _ _ _ (by decide), lookup_dump]
    rfl
  unfold accessToken
  rw [lookup_update _ hspec.nodup, hnone, Option.none_or, hgithub, Option.getD_some, Json.get_obj, Fields.get,
    lookup_assocSet, if_pos rfl]
  rfl

end Stored

theorem getSession_setContext {db : Database} {sessionId tenantId : String} {session : SessionModel}
    (h : getSessionOr404 db sessionId tenantId = .ok session) (ctx : Fields) :
    getSessionOr404 (setContext db sessionId tenantId ctx) sessionId tenantId =
      .ok { session with context := ctx } := by
  have howns : ∀ s : SessionModel, Owns sessionId tenantId
      (if Owns sessionId tenantId s then { s with context := ctx } else s) ↔ Owns sessionId tenantId s := by
    intro s
    split_ifs
    · exact Iff.rfl
    · exact Iff.rfl
  unfold getSessionOr404 at h ⊢
  unfold setContext
  rw [List.find?_map]
  simp only [Function.comp_def, howns]
  cases hfind : db.sessions.find? fun s => decide (Owns sessionId tenantId s) with
  | none =>
    rw [hfind] at h
    cases h
  | some s =>
    rw [hfind] at h
    obtain rfl := Except.ok.inj h
    have hs : Owns sessionId tenantId s := by simpa using List.find?_some hfind
    simp only [Option.map_some, if_pos hs]

/-! ## The readers of the key -/

/-- The three readers work with the key: the brain sends it to the provider, the sub-agents too, and the
mask shows its ends. -/
structure ReadersUse (rt : Runtime) (brain : ConfigLoader.Runtime) (subAgents : DelegateTask.Env)
    (tenants : List TenantModel) (env : Environment) (db : Database) (sessionId tenantId : String)
    (session : SessionModel) (key : String) : Prop where
  brain : ∃ config, loadSessionLlmConfig { brain with decryptString := decryptString rt.fernet } tenants
    (some session) env = .ok config ∧ config.apiKey = .str key
  subAgents : DelegateTask.subAgentKey { subAgents with decryptString := decryptValue rt.fernet } session = key
  mask : ∃ view, getSessionConfig rt db sessionId tenantId = .ok view ∧ view.apiKeyMasked = maskSecret key 8 4

section Readers
variable {rt : Runtime} {keyEntropy tokenEntropy : ℕ} {db db' : Database} {sessionId tenantId : String}
variable {req : SessionConfigRequest} {answer : Except PyError Json} {session : SessionModel}

/-- What the route committed is what the next query of the session finds. -/
theorem stored_session (h : updateSessionConfig rt keyEntropy tokenEntropy db sessionId tenantId req =
      .ok (db', answer)) (hsession : getSessionOr404 db' sessionId tenantId = .ok session) :
    ∃ before, getSessionOr404 db sessionId tenantId = .ok before ∧
      updatedContext rt keyEntropy tokenEntropy req before.context = .ok session.context := by
  obtain ⟨before, hbefore, h⟩ := bind_eq_ok_iff.mp h
  obtain ⟨ctx, hctx, h⟩ := bind_eq_ok_iff.mp h
  obtain ⟨rfl, _⟩ := Prod.mk.inj (Except.ok.inj h)
  rw [getSession_setContext hbefore] at hsession
  obtain rfl := Except.ok.inj hsession
  exact ⟨before, hbefore, hctx⟩

theorem tenantId_of_getSession (h : getSessionOr404 db sessionId tenantId = .ok session) :
    session.tenantId = tenantId := by
  unfold getSessionOr404 at h
  split at h
  next s hfind =>
    obtain rfl := Except.ok.inj h
    have hs : Owns sessionId tenantId s := by simpa using List.find?_some hfind
    exact hs.2
  next => cases h

theorem selectedFor_eq_none {tenants : List TenantModel}
    (h : ∀ tenant ∈ tenants, tenant.id = session.tenantId → tenant.byomConfigs = []) :
    selectedFor tenants (some session) = none := by
  unfold selectedFor tenantSelection
  simp only [Option.bind_eq_bind, Option.bind_some]
  split_ifs
  · rfl
  · cases hfind : tenants.find? fun t => decide (t.id = session.tenantId) with
    | none => rfl
    | some tenant =>
      have hid : tenant.id = session.tenantId := by simpa using List.find?_some hfind
      rw [Option.bind_some, h tenant (List.mem_of_find?_eq_some hfind) hid]
      unfold selectByom
      split_ifs <;> rfl

theorem activePreset_eq_none {requested : Json} {preset : Option Preset}
    (h : ∀ id, requested = .str id → PRESET_DEFAULTS.lookup id = none)
    (hpreset : activePreset none requested = .ok preset) : preset = none := by
  unfold activePreset at hpreset
  split_ifs at hpreset
  · cases requested with
    | str id => exact (Except.ok.inj hpreset).symm.trans (h id rfl)
    | arr _ => cases hpreset
    | obj _ => cases hpreset
    | _ => exact (Except.ok.inj hpreset).symm
  · exact (Except.ok.inj hpreset).symm

/-- Without a BYOM entry and a preset the loader returns the stored text as it is. -/
theorem apiKey_of_load {brain : ConfigLoader.Runtime} {tenants : List TenantModel} {env : Environment}
    {config : LlmConfig} {stored : String}
    (hbyom : ∀ tenant ∈ tenants, tenant.id = session.tenantId → tenant.byomConfigs = [])
    (hpreset : ∀ id, Fields.get session.context "active_model_id" = .str id →
      PRESET_DEFAULTS.lookup id = none)
    (hstored : Fields.get session.context "api_key" = .str stored) (hne : stored ≠ "")
    (hload : loadSessionLlmConfig brain tenants (some session) env = .ok config) :
    config.apiKey = .str stored := by
  obtain ⟨preset, hactive, hall⟩ := load_spec hload
  rw [selectedFor_eq_none hbyom] at hactive
  obtain rfl := activePreset_eq_none hpreset hactive
  obtain ⟨config', hload', hkey, _⟩ := hall env
  obtain rfl := Except.ok.inj (hload.symm.trans hload')
  have hcontext : Fields.get (contextOf (some session)) "api_key" = .str stored := hstored
  rw [hkey, selectedFor_eq_none hbyom, resolveApiKey, hcontext, pyOr_of_falsy _ rfl,
    pyOr_of_truthy _ ((truthy_str stored).mpr hne)]

theorem apiKeyMasked_of_getSessionConfig (hsession : getSessionOr404 db sessionId tenantId = .ok session)
    {view : ConfigView} (h : getSessionConfig rt db sessionId tenantId = .ok view) :
    view.apiKeyMasked = maskSecret (shownSecret rt (Fields.get session.context "api_key")) 8 4 := by
  obtain ⟨session', hsession', h⟩ := bind_eq_ok_iff.mp h
  obtain rfl := Except.ok.inj (hsession.symm.trans hsession')
  obtain ⟨token, _, h⟩ := bind_eq_ok_iff.mp h
  obtain rfl := Except.ok.inj h
  rfl

/-- **Once a key is stored, the sub-agents and the mask work with it, and the brain never does: it sends
the token that the key was encrypted to.** -/
theorem stored_key_not_used_by_brain (hfernet : rt.fernet.RoundTrips)
    (hstored : updateSessionConfig rt keyEntropy tokenEntropy db sessionId tenantId req = .ok (db', answer))
    (hsession : getSessionOr404 db' sessionId tenantId = .ok session) {key : String}
    (hkey : req.apiKey = some key) (hne : key ≠ "") (hplain : looksEncrypted key = false)
    {tenants : List TenantModel}
    (hbyom : ∀ tenant ∈ tenants, tenant.id = tenantId → tenant.byomConfigs = [])
    (hpreset : ∀ id, Fields.get session.context "active_model_id" = .str id →
      PRESET_DEFAULTS.lookup id = none)
    (brain : ConfigLoader.Runtime) (subAgents : DelegateTask.Env) (env : Environment) :
    ¬ ReadersUse rt brain subAgents tenants env db' sessionId tenantId session key ∧
      (∀ config, loadSessionLlmConfig { brain with decryptString := decryptString rt.fernet } tenants
        (some session) env = .ok config →
          config.apiKey = .str (encryptString rt.fernet keyEntropy key) ∧ config.apiKey ≠ .str key) ∧
      DelegateTask.subAgentKey { subAgents with decryptString := decryptValue rt.fernet } session = key ∧
      ∀ view, getSessionConfig rt db' sessionId tenantId = .ok view →
        view.apiKeyMasked = maskSecret key 8 4 := by
  obtain ⟨before, _, hctx⟩ := stored_session hstored hsession
  have htoken := apiKey_updatedContext hctx hkey hne
  have htruthy : (Json.str (encryptString rt.fernet keyEntropy key)).truthy = true :=
    (truthy_str _).mpr (encryptString_ne_empty hfernet keyEntropy hne)
  have hdecrypt := decryptString_encryptString hfernet keyEntropy key
  have hload : ∀ config, loadSessionLlmConfig { brain with decryptString := decryptString rt.fernet } tenants
      (some session) env = .ok config →
        config.apiKey = .str (encryptString rt.fernet keyEntropy key) ∧ config.apiKey ≠ .str key := by
    intro config hload
    have hown : ∀ tenant ∈ tenants, tenant.id = session.tenantId → tenant.byomConfigs = [] := by
      rw [tenantId_of_getSession hsession]
      exact hbyom
    have hsent := apiKey_of_load hown hpreset htoken (encryptString_ne_empty hfernet keyEntropy hne) hload
    refine ⟨hsent, ?_⟩
    rw [hsent]
    exact fun heq => encryptString_ne hfernet keyEntropy hne hplain (Json.str.inj heq)
  refine ⟨?_, hload, ?_, ?_⟩
  · rintro ⟨⟨config, hconfig, hsame⟩, _, _⟩
    exact (hload config hconfig).2 hsame
  · unfold DelegateTask.subAgentKey
    rw [htoken, if_pos htruthy]
    exact hdecrypt
  · intro view hview
    rw [apiKeyMasked_of_getSessionConfig hsession hview, htoken, shownSecret, if_pos htruthy]
    exact congrArg (fun value => maskSecret value 8 4) hdecrypt

end Readers

/-! ## A session of a tenant without models of its own -/

def plainRuntime : Runtime := ⟨markingFernet, fun _ => .ok []⟩

def plainDatabase : Database := ⟨[⟨"s1", "acme", "developer", [], "auto", []⟩], [], [], [], 0⟩

def keyRequest : SessionConfigRequest := ⟨none, some "sk-acme", none, none, none⟩

/-- A deployment in which nothing but the session's row matters. -/
def plainSubAgents : DelegateTask.Env where
  fs := ⟨"/srv", "/tmp", fun _ => .ok [], fun _ => ""⟩
  findSession _ := none
  environ _ := none
  decryptString _ := ""
  getPersonaPrompt _ := ""
  getToolInstance _ := none
  acompletion _ _ := .ok ⟨.null, []⟩
  execute _ _ _ := .ok .null
  dumps _ := ""
  limits := .unlimited
  jsonDecodeError _ := ""
  refusal _ := ""

def storedSession : SessionModel :=
  ⟨"s1", "acme", "developer", [("api_key", .str (encryptString markingFernet 0 "sk-acme"))], "auto", []⟩

theorem plain_stored : ∃ answer, updateSessionConfig plainRuntime 0 0 plainDatabase "s1" "acme" keyRequest =
    .ok (⟨[storedSession], [], [], [], 0⟩, answer) := ⟨_, rfl⟩

theorem no_model_requested (id : String) (h : Fields.get storedSession.context "active_model_id" = .str id) :
    PRESET_DEFAULTS.lookup id = none := by
  have hnull : Fields.get storedSession.context "active_model_id" = .null := rfl
  rw [hnull] at h
  cases h

theorem acme_key_not_used_by_brain :
    ¬ ReadersUse plainRuntime ConfigLoader.plainRuntime plainSubAgents [] (fun _ => none)
      ⟨[storedSession], [], [], [], 0⟩ "s1" "acme" storedSession "sk-acme" := by
  obtain ⟨_, hstored⟩ := plain_stored
  exact (stored_key_not_used_by_brain markingFernet_recognizes.toRoundTrips hstored rfl rfl
    (by decide) (by decide) (fun _ h => absurd h List.not_mem_nil) no_model_requested _ _ _).1

theorem brain_sends_token : ¬ ∀ (rt : Runtime) (keyEntropy tokenEntropy : ℕ) (db db' : Database)
    (sessionId tenantId key : String) (req : SessionConfigRequest) (answer : Except PyError Json)
    (session : SessionModel) (tenants : List TenantModel) (brain : ConfigLoader.Runtime)
    (subAgents : DelegateTask.Env) (env : Environment), rt.fernet.RoundTrips →
      updateSessionConfig rt keyEntropy tokenEntropy db sessionId tenantId req = .ok (db', answer) →
      getSessionOr404 db' sessionId tenantId = .ok session → req.apiKey = some key → key ≠ "" →
      looksEncrypted key = false → (∀ tenant ∈ tenants, tenant.id = tenantId → tenant.byomConfigs = []) →
      (∀ id, Fields.get session.context "active_model_id" = .str id → PRESET_DEFAULTS.lookup id = none) →
      ReadersUse rt brain subAgents tenants env db' sessionId tenantId session key := by
  intro h
  obtain ⟨_, hstored⟩ := plain_stored
  have huse := h plainRuntime 0 0 plainDatabase _ "s1" "acme" "sk-acme" keyRequest _ storedSession []
    ConfigLoader.plainRuntime plainSubAgents (fun _ => none) markingFernet_recognizes.toRoundTrips hstored rfl
    rfl (by decide) (by decide) (fun _ h => absurd h List.not_mem_nil) no_model_requested
  obtain ⟨config, hconfig, hkey⟩ := huse.brain
  have hsent : config.apiKey = .str (encryptString markingFernet 0 "sk-acme") :=
    apiKey_of_load (fun _ h => absurd h List.not_mem_nil) no_model_requested rfl
      (encryptString_ne_empty markingFernet_recognizes.toRoundTrips 0 (by decide)) hconfig
  rw [hsent] at hkey
  exact encryptString_ne markingFernet_recognizes.toRoundTrips 0 (by decide) (by decide) (Json.str.inj hkey)

end KernelRuntime.SessionConfig
