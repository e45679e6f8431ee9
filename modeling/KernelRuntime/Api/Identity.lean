import KernelRuntime.Api.Auth
import KernelRuntime.Foundations.JsonEncoder

/-! # Who a request is from

`register` and `login` issue tokens; the other routes, and the stream of a task, read the user from the token that comes
with a request. `jwt` is outside: it gives back the payload of a token that the runtime made, until it expires. -/

namespace KernelRuntime.Identity
open Auth (Library TenantModel OrganizationModel UserModel TokenResponse Rows RegisterRequest LoginRequest Fresh)
set_option autoImplicit false

/-! ## Tokens -/

structure TokenPayload where
  tenantId : Json
  userId : Json
  email : Json
  role : Json
  tier : Json
  limits : Json
  exp : Json
  iat : Json
  organizationId : Json
deriving DecidableEq

inductive TokenError where
  | httpException (status detail : String)
  | keyError (key : String)
deriving DecidableEq

inductive InvalidToken where
  | expiredSignatureError
  | invalidTokenError (text : String)
deriving DecidableEq

/-- The payloads that `encode` of the law below is about: no two values of one key, and no claims but the times that
`jwt` checks itself. -/
structure Plain (fields : Fields) : Prop where
  keys : (fields.map Prod.fst).Nodup
  values : ∀ m ∈ fields, m.2 = .obj [] ∨ ∃ v : Encoder.Scalar, m.2 = v.toJson
  claims : ∀ m ∈ fields, m.1 ∉ ["nbf", "aud", "iss", "sub", "jti"]

/-- `jwt.decode` with the secret of the runtime, at a time. -/
structure Jwt (lib : Library) where
  decode : ℤ → String → Except InvalidToken Fields
  decode_encode : ∀ now iat exp fields, Plain fields → fields.lookup "iat" = some (.int iat) →
    fields.lookup "exp" = some (.int exp) → iat ≤ now →
    decode now (lib.encode fields) = if exp ≤ now then .error .expiredSignatureError else .ok fields

section Decoding
variable {lib : Library} (jwt : Jwt lib)

/-- `payload[key]`. -/
def item (payload : Fields) (key : String) : Except TokenError Json :=
  match payload.lookup key with
  | some value => .ok value
  | none => .error (.keyError key)

def required : List String := ["tenant_id", "user_id", "email", "role"]

/-- What `decode_token` makes of a payload. -/
def readClaims (payload : Fields) : Except TokenError TokenPayload :=
  match required.find? fun field => (payload.lookup field).isNone with
  | some field => .error (.httpException "401" ("Missing required field: " ++ field))
  | none => do
    return {
      tenantId := ← item payload "tenant_id"
      organizationId := (payload.lookup "organization_id").getD .null
      userId := ← item payload "user_id"
      email := ← item payload "email"
      role := ← item payload "role"
      tier := (payload.lookup "tier").getD (.str "pro")
      limits := (payload.lookup "limits").getD (.obj [])
      exp := ← item payload "exp"
      iat := ← item payload "iat" }

def decodeToken (now : ℤ) (token : String) : Except TokenError TokenPayload :=
  match jwt.decode now token with
  | .error .expiredSignatureError => .error (.httpException "401" "Token has expired")
  | .error (.invalidTokenError text) => .error (.httpException "401" ("Invalid token: " ++ text))
  | .ok payload => readClaims payload

/-- The user of a deployment without logins. -/
def localUser (tenantId : String) : TokenPayload where
  tenantId := .str tenantId
  userId := .str "local"
  email := .str "local@dev.local"
  role := .str "developer"
  tier := .str "pro"
  limits := .obj [("rpm", .int 60), ("rph", .int 500)]
  exp := .int 0
  iat := .int 0
  organizationId := .null

/-- `get_current_user_dep`: a token in the header hides that of the query. -/
def getCurrentUserDep (allowAnonLocal : Bool) (now : ℤ) (credentials query : Option String) :
    Except TokenError TokenPayload :=
  let token := (credentials.or query).getD ""
  if token = "" then
    if allowAnonLocal then .ok (localUser "local") else .error (.httpException "401" "Authentication required")
  else decodeToken jwt now token

/-- `resolve_stream_user`, where only an `HTTPException` is caught. -/
def resolveStreamUser (allowAnonLocal : Bool) (now : ℤ) (token tenantId : Option String) :
    Except TokenError (Option TokenPayload) :=
  if token.getD "" = "" then
    if allowAnonLocal then .ok (some (localUser (if tenantId.getD "" = "" then "local" else tenantId.getD "")))
    else .ok none
  else match decodeToken jwt now (token.getD "") with
    | .ok user => .ok (some user)
    | .error (.httpException _ _) => .ok none
    | .error (.keyError key) => .error (.keyError key)

end Decoding

/-! ## Runs -/

/-- An answer of `register` or `login`, with the time it was made at. -/
structure Issue where
  response : TokenResponse
  issuedAt : ℤ

structure World where
  auth : Auth.State
  clock : ℤ
  issued : List Issue

def World.init (clock : ℤ) : World := ⟨Auth.State.init, clock, []⟩

inductive Label where
  | passes (seconds : ℕ)
  | registerReads (id : ℕ) (req : RegisterRequest)
  | registerInserts (id : ℕ) (fresh : Fresh)
  | registerCommits (id : ℕ)
  | logsIn (req : LoginRequest)

section System
variable (lib : Library)

/-- The step of a route at a time; none for a label that only waits. -/
def Label.route (now : ℤ) : Label → Option Auth.Label
  | .passes _ => none
  | .registerReads id req => some (.registerReads id req)
  | .registerInserts id fresh => some (.registerInserts id fresh)
  | .registerCommits id => some (.registerCommits id now)
  | .logsIn req => some (.logsIn req)

def Label.seconds : Label → ℕ
  | .passes seconds => seconds
  | _ => 0

/-- The answers that a step sends. -/
def answers (w : World) : Label → List Issue
  | .registerCommits id =>
    match w.auth.requests.get? id with
    | some (_, .inserted rows) =>
      match (Auth.afterCommit lib w.clock w.auth.db rows).2 with
      | .returned (.ok response) => [⟨response, w.clock⟩]
      | _ => []
    | _ => []
  | .logsIn req =>
    match Auth.login lib w.clock w.auth.db req with
    | .ok response => [⟨response, w.clock⟩]
    | .error _ => []
  | _ => []

def step (w : World) (l : Label) : Option World :=
  match l.route w.clock with
  | none => some { w with clock := w.clock + l.seconds }
  | some route => (Auth.step lib w.auth route).map fun auth => ⟨auth, w.clock, w.issued ++ answers lib w l⟩

/-- Whoever made the token, it was the runtime, if `jwt` ever takes it. -/
def Unforged {lib : Library} (jwt : Jwt lib) (w : World) (token : String) : Prop :=
  ∀ now payload, jwt.decode now token = .ok payload →
    ∃ i ∈ w.issued, token = i.response.accessToken ∨ token = i.response.refreshToken

/-- The user that a token stands for. -/
structure Identifies (w : World) (token : String) (u : UserModel) (i : Issue) : Prop where
  issued : i ∈ w.issued
  token : token = i.response.accessToken
  tenant : i.response.tenantId = u.tenantId
  user : i.response.userId = u.id
  alive : w.clock < i.issuedAt + 24 * 60 * 60
  registered : u ∈ w.auth.db.users
  alone : ∀ v ∈ w.auth.db.users, v.tenantId = u.tenantId → v = u
  organization : ∃ org ∈ w.auth.db.organizations, some org.id = u.organizationId ∧ org.tenantId = u.tenantId

/-- The payload of the access token that a user got. -/
def payloadOf (u : UserModel) (issuedAt : ℤ) : TokenPayload where
  tenantId := .str u.tenantId
  userId := .str u.id
  email := .str u.email
  role := .str u.role
  tier := .str "pro"
  limits := .obj []
  exp := .int (issuedAt + 24 * 60 * 60)
  iat := .int issuedAt
  organizationId := (u.organizationId.map Json.str).getD .null

variable {lib}

/-! ## Tokens of the runtime -/

theorem plain_access (now : ℤ) (tenantId userId email role organizationId : String) :
    Plain [("tenant_id", .str tenantId), ("organization_id", .str organizationId), ("user_id", .str userId),
      ("email", .str email), ("role", .str role), ("tier", .str "pro"), ("limits", .obj []), ("iat", .int now),
      ("exp", .int (now + Auth.accessTokenExpireMinutes * 60)), ("type", .str "access")] := by
  refine ⟨?_, ?_, ?_⟩
  · simp
  · have hstr : ∀ text, ∃ v : Encoder.Scalar, Json.str text = v.toJson := fun text => ⟨.str text, rfl⟩
    have hint : ∀ n, ∃ v : Encoder.Scalar, Json.int n = v.toJson := fun n => ⟨.int n, rfl⟩
    simp [hstr, hint]
  · simp

theorem plain_refresh (now : ℤ) (tenantId userId : String) :
    Plain [("tenant_id", .str tenantId), ("user_id", .str userId), ("iat", .int now),
      ("exp", .int (now + Auth.refreshTokenExpireDays * 86400)), ("type", .str "refresh")] := by
  refine ⟨?_, ?_, ?_⟩
  · simp
  · have hstr : ∀ text, ∃ v : Encoder.Scalar, Json.str text = v.toJson := fun text => ⟨.str text, rfl⟩
    have hint : ∀ n, ∃ v : Encoder.Scalar, Json.int n = v.toJson := fun n => ⟨.int n, rfl⟩
    simp [hstr, hint]
  · simp

theorem decodeToken_access (jwt : Jwt lib) {now issuedAt : ℤ} (hpast : issuedAt ≤ now) {tenant : TenantModel}
    {org : OrganizationModel} {u : UserModel} (htenant : tenant.id = u.tenantId)
    (horg : some org.id = u.organizationId) :
    decodeToken jwt now (Auth.tokenResponse lib issuedAt tenant org u).accessToken =
      if issuedAt + 24 * 60 * 60 ≤ now then .error (.httpException "401" "Token has expired")
      else .ok (payloadOf u issuedAt) := by
  unfold decodeToken Auth.tokenResponse Auth.createAccessToken
  rw [jwt.decode_encode now issuedAt _ _ (plain_access issuedAt tenant.id u.id u.email u.role org.id) rfl rfl hpast]
  have hday : Auth.accessTokenExpireMinutes * 60 = 24 * 60 * 60 := rfl
  rw [hday]
  split_ifs with hexp
  · rfl
  · unfold payloadOf
    rw [← htenant, ← horg]
    rfl

/-- A refresh token has no email. -/
theorem decodeToken_refresh (jwt : Jwt lib) {now issuedAt : ℤ} (hpast : issuedAt ≤ now) (tenant : TenantModel)
    (org : OrganizationModel) (u : UserModel) :
    ∃ detail, decodeToken jwt now (Auth.tokenResponse lib issuedAt tenant org u).refreshToken =
      .error (.httpException "401" detail) := by
  unfold decodeToken Auth.tokenResponse Auth.createRefreshToken
  rw [jwt.decode_encode now issuedAt _ _ (plain_refresh issuedAt tenant.id u.id) rfl rfl hpast]
  split_ifs with hexp
  · exact ⟨_, rfl⟩
  · exact ⟨_, rfl⟩

/-! ## What the routes keep -/

/-- The rows of a registration belong together. -/
structure Linked (rows : Rows) : Prop where
  tenant : rows.tenant.id = rows.user.tenantId
  organization : some rows.organization.id = rows.user.organizationId
  owner : rows.organization.tenantId = rows.user.tenantId

theorem linked_newRows {req : RegisterRequest} {fresh : Fresh} {rows : Rows}
    (h : Auth.newRows lib req fresh = .ok rows) : Linked rows := by
  obtain ⟨hash, _, hrows⟩ := bind_eq_ok_iff.mp h
  obtain rfl := Except.ok.inj hrows
  exact ⟨rfl, rfl, rfl⟩

/-- The users of a database have tenants of their own, and organizations there. -/
structure Owned (db : Auth.Database) : Prop where
  alone : ∀ u ∈ db.users, ∀ v ∈ db.users, v.tenantId = u.tenantId → v = u
  tenants : ∀ u ∈ db.users, ∃ tenant ∈ db.tenants, tenant.id = u.tenantId
  organizations : ∀ u ∈ db.users, ∃ org ∈ db.organizations, some org.id = u.organizationId ∧ org.tenantId = u.tenantId

theorem Owned.insert {db : Auth.Database} {rows : Rows} (h : Owned db) (hrows : Linked rows)
    (hfree : db.violated rows = false) : Owned (db.insert rows) := by
  have hnew : ∀ u ∈ db.users, u.tenantId ≠ rows.user.tenantId := by
    intro u hu heq
    obtain ⟨tenant, htenant, hid⟩ := h.tenants u hu
    have hviolated : db.violated rows = true := by
      unfold Auth.Database.violated
      have hany : (db.tenants.any fun t => decide (t.id = rows.tenant.id ∨ t.slug = rows.tenant.slug)) = true :=
        List.any_eq_true.mpr ⟨tenant, htenant, decide_eq_true (Or.inl (by rw [hid, heq, hrows.tenant]))⟩
      rw [hany, Bool.true_or, Bool.true_or]
    rw [hfree] at hviolated
    cases hviolated
  refine ⟨?_, ?_, ?_⟩
  · intro u hu v hv heq
    rcases List.mem_append.mp hu with hu | hu
    · rcases List.mem_append.mp hv with hv | hv
      · exact h.alone u hu v hv heq
      · obtain rfl := List.mem_singleton.mp hv
        exact absurd heq.symm (hnew u hu)
    · obtain rfl := List.mem_singleton.mp hu
      rcases List.mem_append.mp hv with hv | hv
      · exact absurd heq (hnew v hv)
      · exact List.mem_singleton.mp hv
  · intro u hu
    rcases List.mem_append.mp hu with hu | hu
    · obtain ⟨tenant, htenant, hid⟩ := h.tenants u hu
      exact ⟨tenant, List.mem_append_left _ htenant, hid⟩
    · obtain rfl := List.mem_singleton.mp hu
      exact ⟨rows.tenant, by simp [Auth.Database.insert], hrows.tenant⟩
  · intro u hu
    rcases List.mem_append.mp hu with hu | hu
    · obtain ⟨org, horg, hid⟩ := h.organizations u hu
      exact ⟨org, List.mem_append_left _ horg, hid⟩
    · obtain rfl := List.mem_singleton.mp hu
      exact ⟨rows.organization, by simp [Auth.Database.insert], hrows.organization, hrows.owner⟩

variable (lib) in
/-- An answer to a user of the database. -/
def Registered (db : Auth.Database) (i : Issue) : Prop :=
  ∃ u ∈ db.users, ∃ tenant org, tenant.id = u.tenantId ∧ some org.id = u.organizationId ∧
    i.response = Auth.tokenResponse lib i.issuedAt tenant org u

theorem Registered.insert {db : Auth.Database} {i : Issue} (h : Registered lib db i) (rows : Rows) :
    Registered lib (db.insert rows) i := by
  obtain ⟨u, hu, hanswer⟩ := h
  exact ⟨u, List.mem_append_left _ hu, hanswer⟩

theorem registered_login {now : ℤ} {db : Auth.Database} {req : LoginRequest} {response : TokenResponse}
    (h : Auth.login lib now db req = .ok response) : Registered lib db ⟨response, now⟩ := by
  unfold Auth.login at h
  obtain ⟨found, hfound, h⟩ := bind_eq_ok_iff.mp h
  cases found with
  | none => cases h
  | some u =>
    have hu : u ∈ db.users := by
      unfold Auth.scalarOneOrNone at hfound
      split at hfound
      · cases hfound
      · rename_i user husers
        obtain rfl := Option.some.inj (Except.ok.inj hfound)
        have hmem : user ∈ Auth.usersOf db req.email := by rw [husers]; exact List.mem_singleton_self user
        exact (List.mem_filter.mp hmem).1
      · cases hfound
    simp only at h
    split at h
    · cases h
    · obtain ⟨matched, _, h⟩ := bind_eq_ok_iff.mp h
      split_ifs at h
      · split at h
        · rename_i tenant org hjoined
          have hfound := List.find?_some hjoined
          have hids := of_decide_eq_true hfound
          exact ⟨u, hu, tenant, org, hids.1, hids.2, (Except.ok.inj h).symm⟩
        · cases h

/-! ## The invariant -/

variable (lib) in
structure Inv (w : World) : Prop where
  pending : ∀ id req rows, w.auth.requests.get? id = some (req, .inserted rows) → Linked rows
  owned : Owned w.auth.db
  registered : ∀ i ∈ w.issued, Registered lib w.auth.db i
  past : ∀ i ∈ w.issued, i.issuedAt ≤ w.clock

theorem Inv.init (clock : ℤ) : Inv lib (World.init clock) := by
  refine ⟨?_, ⟨?_, ?_, ?_⟩, ?_, ?_⟩
  · rintro id req rows ⟨⟩
  · rintro u ⟨⟩
  · rintro u ⟨⟩
  · rintro u ⟨⟩
  · rintro i ⟨⟩
  · rintro i ⟨⟩

/-- Rows that wait for their commit were waiting before, or are the new rows of a registration. -/
theorem inserted_of_step {s s' : Auth.State} {route : Auth.Label} (h : Auth.step lib s route = some s') {id : ℕ}
    {req : RegisterRequest} {rows : Rows} (hget : s'.requests.get? id = some (req, .inserted rows)) :
    s.requests.get? id = some (req, .inserted rows) ∨ ∃ fresh, Auth.newRows lib req fresh = .ok rows := by
  have hset : ∀ {id' req' stage}, (s.requests.set id' (req', stage)).get? id = some (req, .inserted rows) →
      s.requests.get? id = some (req, .inserted rows) ∨ req' = req ∧ stage = .inserted rows := by
    intro id' req' stage h
    rw [OrderedDict.get?_set] at h
    split_ifs at h
    · obtain ⟨rfl, rfl⟩ := Prod.mk.inj (Option.some.inj h)
      exact Or.inr ⟨rfl, rfl⟩
    · exact Or.inl h
  cases route with
  | registerReads id' req' =>
    simp only [Auth.step] at h
    split_ifs at h
    obtain rfl := Option.some.inj h
    refine (hset hget).imp_right ?_
    rintro ⟨_, hstage⟩
    unfold Auth.afterRead at hstage
    split at hstage <;> cases hstage
  | registerInserts id' fresh =>
    simp only [Auth.step] at h
    split at h
    · obtain rfl := Option.some.inj h
      refine (hset hget).imp_right ?_
      rintro ⟨rfl, hstage⟩
      unfold Auth.afterInsert at hstage
      split at hstage
      · cases hstage
      · rename_i rows' hrows
        obtain rfl := Auth.Stage.inserted.inj hstage
        exact ⟨fresh, hrows⟩
    · cases h
  | registerCommits id' now =>
    simp only [Auth.step] at h
    split at h
    · obtain rfl := Option.some.inj h
      refine (hset hget).imp_right ?_
      rintro ⟨_, hstage⟩
      unfold Auth.afterCommit at hstage
      split_ifs at hstage
    · cases h
  | logsIn =>
    obtain rfl := Option.some.inj h
    exact Or.inl hget

/-- The database after the step of a route. -/
theorem db_of_step {s s' : Auth.State} {route : Auth.Label} (h : Auth.step lib s route = some s') :
    s'.db = s.db ∨ ∃ id req rows, s.requests.get? id = some (req, .inserted rows) ∧ s.db.violated rows = false ∧
      s'.db = s.db.insert rows := by
  rcases Auth.step_cases h with ⟨hsame, _⟩ | ⟨id, _, req, rows, _, hget, hfree, hdb, _⟩
  · exact Or.inl hsame
  · exact Or.inr ⟨id, req, rows, hget, hfree, hdb⟩

/-- A step answers a user that is there after it. -/
theorem Inv.answers {w : World} {l : Label} {route : Auth.Label} {auth : Auth.State} (h : Inv lib w)
    (hroute : l.route w.clock = some route) (hstep : Auth.step lib w.auth route = some auth) {i : Issue}
    (hi : i ∈ Identity.answers lib w l) : Registered lib auth.db i ∧ i.issuedAt = w.clock := by
  cases l with
  | passes => cases hroute
  | registerReads => cases hi
  | registerInserts => cases hi
  | registerCommits id =>
    obtain rfl := Option.some.inj hroute
    simp only [Identity.answers] at hi
    split at hi
    · rename_i req rows hget
      simp only [Auth.step, hget] at hstep
      obtain rfl := Option.some.inj hstep
      have hlinked := h.pending id req rows hget
      cases hviolated : w.auth.db.violated rows with
      | true =>
        rw [Auth.afterCommit, if_pos hviolated] at hi
        cases hi
      | false =>
        have hcommit : Auth.afterCommit lib w.clock w.auth.db rows = (w.auth.db.insert rows, .returned (.ok
            (Auth.tokenResponse lib w.clock rows.tenant rows.organization rows.user))) := by
          rw [Auth.afterCommit, if_neg (by simp [hviolated])]
        simp only [hcommit] at hi ⊢
        obtain rfl := List.mem_singleton.mp hi
        exact ⟨⟨rows.user, by simp [Auth.Database.insert], rows.tenant, rows.organization, hlinked.tenant,
          hlinked.organization, rfl⟩, rfl⟩
    · cases hi
  | logsIn req =>
    obtain rfl := Option.some.inj hroute
    obtain rfl := Option.some.inj hstep
    simp only [Identity.answers] at hi
    split at hi
    · rename_i response hlogin
      obtain rfl := List.mem_singleton.mp hi
      exact ⟨registered_login hlogin, rfl⟩
    · cases hi

theorem Inv.step {w w' : World} {l : Label} (h : Inv lib w) (hstep : Identity.step lib w l = some w') : Inv lib w' := by
  unfold Identity.step at hstep
  split at hstep
  · obtain rfl := Option.some.inj hstep
    refine ⟨h.pending, h.owned, h.registered, ?_⟩
    intro i hi
    have hpast := h.past i hi
    simp only
    omega
  · rename_i route hroute
    obtain ⟨auth, hauth, rfl⟩ := Option.map_eq_some_iff.mp hstep
    refine ⟨?_, ?_, ?_, ?_⟩
    · intro id req rows hget
      rcases inserted_of_step hauth hget with hbefore | ⟨fresh, hrows⟩
      · exact h.pending id req rows hbefore
      · exact linked_newRows hrows
    · rcases db_of_step hauth with hsame | ⟨id, req, rows, hget, hfree, hdb⟩
      · simp only [hsame]
        exact h.owned
      · simp only [hdb]
        exact h.owned.insert (h.pending id req rows hget) hfree
    · intro i hi
      rcases List.mem_append.mp hi with hi | hi
      · have hbefore := h.registered i hi
        rcases db_of_step hauth with hsame | ⟨_, _, rows, _, _, hdb⟩
        · simp only [hsame]
          exact hbefore
        · simp only [hdb]
          exact hbefore.insert rows
      · exact (h.answers hroute hauth hi).1
    · intro i hi
      rcases List.mem_append.mp hi with hi | hi
      · exact h.past i hi
      · exact (h.answers hroute hauth hi).2.le

theorem Inv.run {w w' : World} {ls : List Label} (h : Inv lib w) (hrun : exec (Identity.step lib) w ls = some w') :
    Inv lib w' :=
  exec_invariant_all (fun _ _ _ hw hstep => Inv.step hw hstep) h hrun

/-- What `decode_token` answers to a token that nobody else could make. -/
theorem Inv.decodeToken_iff {w : World} (h : Inv lib w) {jwt : Jwt lib} {token : String}
    (hunforged : Unforged jwt w token) (payload : TokenPayload) :
    decodeToken jwt w.clock token = .ok payload ↔
      ∃ u i, Identifies w token u i ∧ payload = payloadOf u i.issuedAt := by
  constructor
  · intro hok
    obtain ⟨claims, hclaims⟩ : ∃ claims, jwt.decode w.clock token = .ok claims := by
      unfold decodeToken at hok
      split at hok
      · cases hok
      · cases hok
      · exact ⟨_, ‹_›⟩
    obtain ⟨i, hi, htoken⟩ := hunforged _ _ hclaims
    obtain ⟨u, hu, tenant, org, htenant, horg, hresponse⟩ := h.registered i hi
    rcases htoken with rfl | rfl
    · have hdecode := decodeToken_access jwt (h.past i hi) htenant horg
      rw [← hresponse, hok] at hdecode
      split_ifs at hdecode with hexp
      refine ⟨u, i, ⟨hi, rfl, ?_, ?_, not_le.mp hexp, hu, h.owned.alone u hu, h.owned.organizations u hu⟩,
        Except.ok.inj hdecode⟩
      · rw [hresponse]
        exact htenant
      · rw [hresponse]
        rfl
    · obtain ⟨detail, hdecode⟩ := decodeToken_refresh jwt (h.past i hi) tenant org u
      rw [← hresponse, hok] at hdecode
      cases hdecode
  · rintro ⟨u, i, hid, rfl⟩
    obtain ⟨v, hv, tenant, org, htenant, horg, hresponse⟩ := h.registered i hid.issued
    have hsame : v = u := by
      refine hid.alone v hv ?_
      rw [← hid.tenant, hresponse, ← htenant]
      rfl
    rw [hid.token, hresponse, decodeToken_access jwt (h.past i hid.issued) htenant horg, if_neg (not_le.mpr hid.alive),
      hsame]

end System

/-- **In every run of registrations and logins, a token that is not forged is taken exactly when it is the access token
of an answer less than a day old; it stands for the registered user of that answer, who is the only one of his tenant,
for the routes and for the streams alike.** -/
theorem identity_of_token {lib : Library} (jwt : Jwt lib) {start : ℤ} {ls : List Label} {w : World}
    (hrun : exec (step lib) (World.init start) ls = some w) {credentials query : Option String} {token : String}
    (htoken : credentials.or query = some token) (hne : token ≠ "") (hunforged : Unforged jwt w token)
    (allowAnonLocal : Bool) (tenantId : Option String) (payload : TokenPayload) :
    (getCurrentUserDep jwt allowAnonLocal w.clock credentials query = .ok payload ↔
        ∃ u i, Identifies w token u i ∧ payload = payloadOf u i.issuedAt) ∧
      (resolveStreamUser jwt allowAnonLocal w.clock (some token) tenantId = .ok (some payload) ↔
        ∃ u i, Identifies w token u i ∧ payload = payloadOf u i.issuedAt) := by
  have hinv : Inv lib w := (Inv.init start).run hrun
  rw [← hinv.decodeToken_iff hunforged payload]
  constructor
  · unfold getCurrentUserDep
    rw [htoken]
    simp only [Option.getD_some, if_neg hne]
  · unfold resolveStreamUser
    simp only [Option.getD_some, if_neg hne]
    cases decodeToken jwt w.clock token with
    | ok user => simp
    | error e => cases e <;> simp

/-! ## Alice after an hour -/

/-- A text, or the empty dictionary, as a text that tells which. -/
def mark : Json → Encoder.Scalar
  | .str text => .str (String.ofList ('"' :: text.toList))
  | .int n => .int n
  | _ => .str ""

def unmark : Json → Json
  | .str text => if text.toList = [] then .obj [] else .str (String.ofList text.toList.tail)
  | v => v

theorem unmark_mark {v : Json} (h : v = .obj [] ∨ ∃ s : Encoder.Scalar, v = s.toJson) : unmark (mark v).toJson = v := by
  rcases h with rfl | ⟨s, rfl⟩
  · rfl
  · cases s with
    | str text => simp [mark, unmark, Encoder.Scalar.toJson]
    | int n => rfl

/-- Tokens that are their payload. -/
def unsigned : Library :=
  { Auth.plain with encode := fun fields => Encoder.dumps (fields.map fun m => (m.1, mark m.2)) }

def readUnsigned (now : ℤ) (token : String) : Except InvalidToken Fields :=
  match Decoder.decode token with
  | some (.obj fields) =>
    let payload := fields.map fun m => (m.1, unmark m.2)
    match payload.lookup "iat", payload.lookup "exp" with
    | some (.int iat), some (.int exp) =>
      if now < iat then .error (.invalidTokenError "The token is not yet valid (iat)")
      else if exp ≤ now then .error .expiredSignatureError else .ok payload
    | _, _ => .error (.invalidTokenError "Not enough segments")
  | _ => .error (.invalidTokenError "Not enough segments")

def unsignedJwt : Jwt unsigned where
  decode := readUnsigned
  decode_encode := by
    intro now iat exp fields hplain hiat hexp hpast
    have hkeys : ((fields.map fun m => (m.1, mark m.2)).map Prod.fst).Nodup := by
      rw [List.map_map]
      exact hplain.keys
    have hback :
        (Encoder.toFields (fields.map fun m => (m.1, mark m.2))).map (fun m => (m.1, unmark m.2)) = fields := by
      unfold Encoder.toFields
      rw [List.map_map, List.map_map]
      refine (List.map_congr_left ?_).trans (List.map_id fields)
      intro m hm
      exact Prod.ext rfl (unmark_mark (hplain.values m hm))
    unfold readUnsigned unsigned
    simp only [Encoder.decode_dumps hkeys, hback, hiat, hexp, if_neg (not_lt.mpr hpast)]

def aliceRegisters : List Label :=
  [.registerReads 1 (Auth.alice "x"), .registerInserts 1 Auth.first, .registerCommits 1, .passes 3600]

def aliceUser : UserModel := ⟨"u1", "t1", some "o1", "alice@example.org", "", "developer", some "x"⟩

def aliceAnswer : TokenResponse :=
  Auth.tokenResponse unsigned 0 ⟨"t1", "alice_01", "alice@example.org's Tenant", "pro", "active"⟩
    ⟨"o1", "t1", "Default Organization", "default", true⟩ aliceUser

def aliceWorld : World where
  auth := ⟨⟨[⟨"t1", "alice_01", "alice@example.org's Tenant", "pro", "active"⟩],
    [⟨"o1", "t1", "Default Organization", "default", true⟩], [aliceUser]⟩,
    .set .empty 1 (Auth.alice "x", .returned (.ok aliceAnswer))⟩
  clock := 3600
  issued := [⟨aliceAnswer, 0⟩]

theorem alice_is_identified :
    getCurrentUserDep unsignedJwt false aliceWorld.clock (some aliceAnswer.accessToken) none =
      .ok (payloadOf aliceUser 0) := by
  have hrun : exec (step unsigned) (World.init 0) aliceRegisters = some aliceWorld := rfl
  have htoken : (some aliceAnswer.accessToken).or none = some aliceAnswer.accessToken := rfl
  have hunforged : Unforged unsignedJwt aliceWorld aliceAnswer.accessToken :=
    fun _ _ _ => ⟨⟨aliceAnswer, 0⟩, List.mem_singleton_self _, Or.inl rfl⟩
  refine ((identity_of_token unsignedJwt hrun htoken (by decide +kernel) hunforged false none
    (payloadOf aliceUser 0)).1).mpr ⟨aliceUser, ⟨aliceAnswer, 0⟩, ?_, rfl⟩
  refine ⟨List.mem_singleton_self _, rfl, rfl, rfl, by decide, List.mem_singleton_self _, ?_, ?_⟩
  · intro v hv _
    exact List.mem_singleton.mp hv
  · exact ⟨_, List.mem_singleton_self _, rfl, rfl⟩

end KernelRuntime.Identity
