import KernelRuntime.Api.SessionConfig

/-! # The GitHub token of a session

Two routes store an access token in the context of a session. `connect` takes it from the OAuth client,
which encrypts it, and encrypts it again; `update_session_config` encrypts it once. The repository listing
decrypts what looks encrypted, and its client decrypts once more. -/

namespace KernelRuntime.GithubAuth
open SessionConfig
set_option autoImplicit false

structure RepoRequest where
  authorization : String
  page : ℤ
deriving DecidableEq

/-- GitHub, and what the routes need besides: whether the OAuth client is configured, and the session that a
signed state names. -/
structure GitHub where
  configured : Bool
  parseSignedState : String → Except PyError String
  /-- The status and the body that the code is exchanged for. -/
  accessToken : String → String → Except PyError (ℕ × Json)
  user : String → Except PyError Json
  repos : RepoRequest → Except PyError (List Fields)

structure GitHubUser where
  id : Json
  login : Json
  name : Json
  email : Json
  avatarUrl : Json
  accessToken : String

/-- `fields[key]`. -/
def item (fields : Fields) (key : String) : Except PyError Json :=
  match fields.lookup key with
  | some v => .ok v
  | none => .error ⟨.other, "'" ++ key ++ "'"⟩

def asObject : Json → Except PyError Fields
  | .obj fields => .ok fields
  | v => .error ⟨.typeError, "'" ++ v.typeName ++ "' object is not subscriptable"⟩

def getGithubClient (github : GitHub) : Except PyError Unit :=
  if github.configured then .ok () else .error ⟨.other, "GitHub OAuth not configured"⟩

/-- `GitHubOAuthClient.exchange_code`. The token that it returns is encrypted. -/
def exchangeCode (fernet : Fernet) (entropy : ℕ) (github : GitHub) (code redirectUri : String) :
    Except PyError GitHubUser := do
  let response ← github.accessToken code redirectUri
  if response.1 ≠ 200 then throw (httpException "401" "GitHub auth failed")
  else
    match ← response.2.get "access_token" with
    | .str token =>
      if token = "" then throw (httpException "401" "No access token")
      else
        let userData ← asObject (← github.user ("Bearer " ++ token))
        let id ← item userData "id"
        let login ← item userData "login"
        return ⟨id, login, Fields.get userData "name", Fields.get userData "email",
          Fields.get userData "avatar_url", encryptString fernet entropy token⟩
    | v =>
      if v.truthy then throw ⟨.attributeError, "'" ++ v.typeName ++ "' object has no attribute 'encode'"⟩
      else throw (httpException "401" "No access token")

/-- The `github` part of the context that `connect` writes. -/
def GitHubUser.entry (fernet : Fernet) (entropy : ℕ) (u : GitHubUser) : Fields :=
  [("user_id", u.id), ("login", u.login), ("name", u.name), ("email", u.email),
    ("avatar_url", u.avatarUrl), ("access_token", .str (encryptString fernet entropy u.accessToken))]

/-- `connect` with a code and a state. Whatever is raised behind the client becomes a 400. -/
def connect (rt : Runtime) (userEntropy tokenEntropy : ℕ) (github : GitHub) (db : Database)
    (tenantId code state redirectUri : String) : Except PyError (Database × Json) :=
  match getGithubClient github with
  | .error e => .error (httpException "400" e.message)
  | .ok () =>
    if code = "" ∨ state = "" then .error (httpException "400" "Missing OAuth code or state")
    else
      let completed : Except PyError (Database × Json) := do
        let githubUser ← exchangeCode rt.fernet userEntropy github code redirectUri
        let sessionId ← github.parseSignedState state
        let session ← getSessionOr404 db sessionId tenantId
        let ctx := assocSet "github" (.obj (githubUser.entry rt.fernet tokenEntropy)) session.context
        return (setContext db sessionId tenantId ctx, Json.obj [("success", .bool true),
          ("user", .obj [("id", githubUser.id), ("login", githubUser.login), ("name", githubUser.name),
            ("avatar_url", githubUser.avatarUrl)])])
      match completed with
      | .ok r => .ok r
      | .error e => .error (httpException "400" e.message)

def resolveToken (fernet : Fernet) : Json → Except PyError String
  | .str token =>
    if token = "" then .ok ""
    else if looksEncrypted token then .ok (decryptString fernet token)
    else .ok token
  | v => if v.truthy then .error ⟨.attributeError, "'" ++ v.typeName ++ "' object has no attribute 'startswith'"⟩
    else .ok ""

/-- The request that `GitHubOAuthClient.list_repos` sends. -/
def repoRequest (fernet : Fernet) (encryptedToken : String) (page : ℤ) : RepoRequest :=
  ⟨"Bearer " ++ decryptString fernet encryptedToken, page⟩

def repoEntry (r : Fields) : Except PyError Json := do
  let id ← item r "id"
  let name ← item r "name"
  let fullName ← item r "full_name"
  let isPrivate ← item r "private"
  let updatedAt ← item r "updated_at"
  return .obj [("id", id), ("name", name), ("full_name", fullName), ("description", Fields.get r "description"),
    ("private", isPrivate), ("updated_at", updatedAt)]

/-- The request that a listing gets to, or the exception before it. -/
def listingRequest (rt : Runtime) (github : GitHub) (db : Database) (sessionId tenantId : String)
    (page : ℤ) : Except PyError RepoRequest := do
  match db.findSession sessionId with
  | none => throw (httpException "404" "Session not found")
  | some session =>
    if session.tenantId ≠ tenantId then throw (httpException "403" "Not authorized")
    let token ← accessToken session.context
    if token.truthy = false then throw (httpException "401" "GitHub not connected")
    match getGithubClient github with
    | .error e => throw (httpException "400" e.message)
    | .ok () =>
      let encryptedToken ← resolveToken rt.fernet token
      return repoRequest rt.fernet encryptedToken page

def listRepos (rt : Runtime) (github : GitHub) (db : Database) (sessionId tenantId : String) (page : ℤ) :
    Except PyError Json := do
  let request ← listingRequest rt github db sessionId tenantId page
  let repos ← github.repos request
  let entries ← repos.mapM repoEntry
  return .obj [("repos", .arr entries)]

/-! ## What the listing sends -/

section Listing
variable {rt : Runtime} {github : GitHub} {db db' : Database} {sessionId tenantId : String}

theorem getSession_of_findSession {session : SessionModel} (hfind : db.findSession sessionId = some session)
    (htenant : session.tenantId = tenantId) : getSessionOr404 db sessionId tenantId = .ok session := by
  obtain ⟨hid, before, after, hsplit, hbefore⟩ := List.find?_eq_some_iff_append.mp hfind
  have howns : Owns sessionId tenantId session := ⟨of_decide_eq_true hid, htenant⟩
  have hfirst : db.sessions.find? (fun s => decide (Owns sessionId tenantId s)) = some session := by
    refine List.find?_eq_some_iff_append.mpr ⟨decide_eq_true howns, before, after, hsplit, fun s hs => ?_⟩
    have hother : s.id ≠ sessionId := by simpa using hbefore s hs
    have hnot : ¬ Owns sessionId tenantId s := fun h => hother h.1
    simpa using hnot
  unfold getSessionOr404
  rw [hfirst]

/-- The plaintext of a stored token, as `_resolve_token` sees it. -/
def resolved (fernet : Fernet) (token : String) : String :=
  if looksEncrypted token then decryptString fernet token else token

theorem resolveToken_str (fernet : Fernet) {token : String} (hne : token ≠ "") :
    resolveToken fernet (.str token) = .ok (resolved fernet token) := by
  unfold resolveToken resolved
  simp only
  rw [if_neg hne]
  split_ifs <;> rfl

/-- A request is only sent for a session of the tenant that holds a token. -/
theorem listingRequest_inv {page : ℤ} {request : RepoRequest}
    (h : listingRequest rt github db sessionId tenantId page = .ok request) :
    ∃ session, getSessionOr404 db sessionId tenantId = .ok session ∧
      ∀ token, accessToken session.context = .ok (.str token) → token ≠ "" →
        request = repoRequest rt.fernet (resolved rt.fernet token) page := by
  unfold listingRequest at h
  cases hfind : db.findSession sessionId with
  | none =>
    rw [hfind] at h
    cases h
  | some session =>
    rw [hfind] at h
    by_cases htenant : session.tenantId = tenantId
    · refine ⟨session, getSession_of_findSession hfind htenant, fun token htoken hne => ?_⟩
      have htruthy : (Json.str token).truthy = true := (ConfigLoader.truthy_str token).mpr hne
      simp only [htenant, ne_eq, not_true, if_false, htoken] at h
      obtain ⟨token', htoken', h⟩ := bind_eq_ok_iff.mp h
      obtain rfl := Except.ok.inj htoken'
      rw [htruthy] at h
      cases hclient : getGithubClient github with
      | error e =>
        rw [hclient] at h
        cases h
      | ok u =>
        rw [hclient] at h
        obtain ⟨token', hresolve, h⟩ := bind_eq_ok_iff.mp h
        rw [resolveToken_str _ hne] at hresolve
        obtain rfl := Except.ok.inj hresolve
        exact (Except.ok.inj h).symm
    · simp only [ne_eq, htenant, not_false_eq_true, if_true] at h
      cases h

end Listing

/-! ## The two ways of storing a token -/

inductive TokenRoute where
  | connect
  | config
deriving DecidableEq

def Grants (github : GitHub) (code redirectUri token : String) : Prop :=
  ∃ body, github.accessToken code redirectUri = .ok (200, body) ∧ body.get "access_token" = .ok (.str token)

/-- A route has stored the token for the session of the tenant. -/
inductive Stores (rt : Runtime) (github : GitHub) (db : Database) (sessionId tenantId token : String) :
    TokenRoute → Database → Prop
  | connect {userEntropy tokenEntropy : ℕ} {code state redirectUri : String} {db' : Database} {answer : Json}
      (hgrants : Grants github code redirectUri token) (hstate : github.parseSignedState state = .ok sessionId)
      (h : connect rt userEntropy tokenEntropy github db tenantId code state redirectUri = .ok (db', answer)) :
      Stores rt github db sessionId tenantId token .connect db'
  | config {keyEntropy tokenEntropy : ℕ} {req : SessionConfigRequest} {db' : Database}
      {answer : Except PyError Json} (hreq : req.githubToken = some token)
      (h : updateSessionConfig rt keyEntropy tokenEntropy db sessionId tenantId req = .ok (db', answer)) :
      Stores rt github db sessionId tenantId token .config db'

section Routes
variable {rt : Runtime} {github : GitHub} {db db' : Database} {sessionId tenantId token : String}

theorem exchangeCode_token {entropy : ℕ} {code redirectUri : String} {u : GitHubUser}
    (hgrants : Grants github code redirectUri token)
    (h : exchangeCode rt.fernet entropy github code redirectUri = .ok u) :
    u.accessToken = encryptString rt.fernet entropy token := by
  obtain ⟨body, hbody, htoken⟩ := hgrants
  obtain ⟨response, hresponse, h⟩ := bind_eq_ok_iff.mp h
  obtain rfl := Except.ok.inj (hbody.symm.trans hresponse)
  rw [if_neg (by simp)] at h
  obtain ⟨token', htoken', h⟩ := bind_eq_ok_iff.mp h
  obtain rfl := Except.ok.inj (htoken.symm.trans htoken')
  simp only at h
  split_ifs at h
  obtain ⟨_, _, h⟩ := bind_eq_ok_iff.mp h
  obtain ⟨_, _, h⟩ := bind_eq_ok_iff.mp h
  obtain ⟨_, _, h⟩ := bind_eq_ok_iff.mp h
  obtain ⟨_, _, h⟩ := bind_eq_ok_iff.mp h
  rw [← Except.ok.inj h]

/-- `connect` stores the token encrypted twice. -/
theorem accessToken_connect {userEntropy tokenEntropy : ℕ} {code state redirectUri : String} {answer : Json}
    {session : SessionModel} (hgrants : Grants github code redirectUri token)
    (hstate : github.parseSignedState state = .ok sessionId)
    (h : connect rt userEntropy tokenEntropy github db tenantId code state redirectUri = .ok (db', answer))
    (hsession : getSessionOr404 db' sessionId tenantId = .ok session) :
    accessToken session.context = .ok (.str (encryptString rt.fernet tokenEntropy
      (encryptString rt.fernet userEntropy token))) := by
  unfold connect at h
  cases hclient : getGithubClient github with
  | error e =>
    rw [hclient] at h
    cases h
  | ok u =>
    rw [hclient] at h
    simp only at h
    split_ifs at h
    split at h
    next r hcompleted =>
      obtain rfl := Except.ok.inj h
      obtain ⟨u, hu, hcompleted⟩ := bind_eq_ok_iff.mp hcompleted
      obtain ⟨id, hid, hcompleted⟩ := bind_eq_ok_iff.mp hcompleted
      obtain rfl := Except.ok.inj (hstate.symm.trans hid)
      obtain ⟨before, hbefore, hcompleted⟩ := bind_eq_ok_iff.mp hcompleted
      obtain ⟨rfl, _⟩ := Prod.mk.inj (Except.ok.inj hcompleted)
      rw [getSession_setContext hbefore] at hsession
      obtain rfl := Except.ok.inj hsession
      show ((List.lookup "github" (assocSet "github" _ before.context)).getD (.obj [])).get "access_token" = _
      rw [lookup_assocSet, if_pos rfl, ← exchangeCode_token hgrants hu]
      rfl
    next => cases h

theorem decrypt_resolved (h : rt.fernet.RoundTrips) (entropy : ℕ) {data : String} (hdata : data ≠ "") :
    resolved rt.fernet (encryptString rt.fernet entropy data) = data := by
  unfold resolved
  rw [if_pos (looksEncrypted_encryptString h entropy hdata), decryptString_encryptString h]

/-- **The listing sends the token that was stored exactly when the OAuth route stored it.** -/
theorem listing_sends_token_iff (hfernet : rt.fernet.Recognizes) (hne : token ≠ "")
    (hplain : looksEncrypted token = false) {route : TokenRoute}
    (hstored : Stores rt github db sessionId tenantId token route db') {page : ℤ} {request : RepoRequest}
    (hsent : listingRequest rt github db' sessionId tenantId page = .ok request) :
    request.authorization = "Bearer " ++ token ↔ route = .connect := by
  have hround := hfernet.toRoundTrips
  have hinner : ∀ entropy, encryptString rt.fernet entropy token ≠ "" :=
    fun entropy => encryptString_ne_empty hround entropy hne
  obtain ⟨session, hsession, hrequest⟩ := listingRequest_inv hsent
  cases hstored with
  | connect hgrants hstate h =>
    have htoken := accessToken_connect hgrants hstate h hsession
    rw [hrequest _ htoken (encryptString_ne_empty hround _ (hinner _)), decrypt_resolved hround _ (hinner _)]
    refine iff_of_true ?_ rfl
    exact congrArg ("Bearer " ++ ·) (decryptString_encryptString hround _ token)
  | config hreq h =>
    obtain ⟨before, _, hctx⟩ := stored_session h hsession
    have htoken := accessToken_updatedContext hctx hreq hne
    rw [hrequest _ htoken (hinner _), decrypt_resolved hround _ hne]
    refine iff_of_false (fun heq => ?_) nofun
    exact decryptString_ne_of_plain hfernet hne hplain ((String.append_right_inj _).mp heq)

end Routes

/-! ## A session that stores the same token in both ways -/

def plainGithub : GitHub where
  configured := true
  parseSignedState _ := .ok "s1"
  accessToken _ _ := .ok (200, .obj [("access_token", .str "gho_1")])
  user _ := .ok (.obj [("id", .int 7), ("login", .str "ada")])
  repos _ := .ok []

def connectedDatabase (github : Fields) : Database :=
  ⟨[⟨"s1", "acme", "developer", [("github", .obj github)], "auto", []⟩], [], [], [], 0⟩

def connectedUser : GitHubUser :=
  ⟨.int 7, .str "ada", .null, .null, .null, encryptString markingFernet 0 "gho_1"⟩

theorem stores_connect : Stores plainRuntime plainGithub plainDatabase "s1" "acme" "gho_1" .connect
    (connectedDatabase (connectedUser.entry markingFernet 1)) :=
  @Stores.connect _ _ _ _ _ _ 0 1 "c" "s" "" _ _ ⟨_, rfl, rfl⟩ rfl rfl

theorem stores_config : Stores plainRuntime plainGithub plainDatabase "s1" "acme" "gho_1" .config
    (connectedDatabase [("access_token", .str (encryptString markingFernet 1 "gho_1"))]) :=
  @Stores.config _ _ _ _ _ _ 0 1 ⟨none, none, some "gho_1", none, none⟩ _ _ rfl rfl

theorem connected_token_sent : ∃ request,
    listingRequest plainRuntime plainGithub (connectedDatabase (connectedUser.entry markingFernet 1)) "s1" "acme"
      1 = .ok request ∧ request.authorization = "Bearer " ++ "gho_1" :=
  ⟨_, rfl, (listing_sends_token_iff markingFernet_recognizes (by decide) (by decide) stores_connect rfl).mpr rfl⟩

/-- The token of a configuration request is decrypted once too often. -/
theorem configured_token_not_sent : ¬ ∀ (rt : Runtime) (github : GitHub) (db db' : Database)
    (sessionId tenantId token : String) (route : TokenRoute) (page : ℤ) (request : RepoRequest),
    rt.fernet.Recognizes → token ≠ "" → looksEncrypted token = false →
      Stores rt github db sessionId tenantId token route db' →
      listingRequest rt github db' sessionId tenantId page = .ok request →
      request.authorization = "Bearer " ++ token := by
  intro h
  have hsent := h plainRuntime plainGithub plainDatabase _ "s1" "acme" "gho_1" .config 1 ⟨"Bearer " ++ "", 1⟩
    markingFernet_recognizes (by decide) (by decide) stores_config rfl
  exact absurd ((String.append_right_inj _).mp hsent) (by decide)

end KernelRuntime.GithubAuth
