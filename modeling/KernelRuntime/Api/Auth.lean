import KernelRuntime.Foundations.Execution
import KernelRuntime.Api.SessionConfig

/-! # Registration and login

`register` reads the users of its email, inserts a tenant with an organization and a user, and commits; the rows are
seen by others from the commit on, where the unique columns are checked. Each registration has a tenant of its own. -/

namespace KernelRuntime.Auth
open SessionConfig (httpException)
set_option autoImplicit false

structure TenantModel where
  id : String
  slug : String
  name : String
  tier : String
  status : String
deriving DecidableEq

structure OrganizationModel where
  id : String
  tenantId : String
  name : String
  slug : String
  isDefault : Bool
deriving DecidableEq

structure UserModel where
  id : String
  tenantId : String
  organizationId : Option String
  email : String
  name : String
  role : String
  passwordHash : Option String
deriving DecidableEq

structure Database where
  tenants : List TenantModel
  organizations : List OrganizationModel
  users : List UserModel

structure RegisterRequest where
  email : String
  password : String
  name : String := ""

structure LoginRequest where
  email : String
  password : String

structure TokenResponse where
  accessToken : String
  refreshToken : String
  expiresIn : ℤ
  tenantId : String
  userId : String
  email : String
  role : String
deriving DecidableEq

/-- `bcrypt`, `jwt.encode` and `str.isalnum`. -/
structure Library where
  hashpw : String → String → Except PyError String
  checkpw : String → String → Except PyError Bool
  encode : Fields → String
  isalnum : Char → Bool

/-- What a registration draws at random. -/
structure Fresh where
  tenantId : String
  organizationId : String
  userId : String
  tokenHex : String
  salt : String

structure Rows where
  tenant : TenantModel
  organization : OrganizationModel
  user : UserModel

section Routes
variable (lib : Library)

def accessTokenExpireMinutes : ℤ := 60 * 24

def refreshTokenExpireDays : ℤ := 30

def createAccessToken (now : ℤ) (tenantId userId email role organizationId : String) : String :=
  lib.encode [("tenant_id", .str tenantId), ("organization_id", .str organizationId), ("user_id", .str userId),
    ("email", .str email), ("role", .str role), ("tier", .str "pro"), ("limits", .obj []), ("iat", .int now),
    ("exp", .int (now + accessTokenExpireMinutes * 60)), ("type", .str "access")]

def createRefreshToken (now : ℤ) (tenantId userId : String) : String :=
  lib.encode [("tenant_id", .str tenantId), ("user_id", .str userId), ("iat", .int now),
    ("exp", .int (now + refreshTokenExpireDays * 86400)), ("type", .str "refresh")]

/-- `create_token_pair`, in the response of both routes. -/
def tokenResponse (now : ℤ) (tenant : TenantModel) (org : OrganizationModel) (user : UserModel) : TokenResponse where
  accessToken := createAccessToken lib now tenant.id user.id user.email user.role org.id
  refreshToken := createRefreshToken lib now tenant.id user.id
  expiresIn := accessTokenExpireMinutes * 60
  tenantId := tenant.id
  userId := user.id
  email := user.email
  role := user.role

def usersOf (db : Database) (email : String) : List UserModel := db.users.filter fun u => decide (u.email = email)

def scalarOneOrNone : List UserModel → Except PyError (Option UserModel)
  | [] => .ok none
  | [user] => .ok (some user)
  | _ => .error ⟨.databaseError, "Multiple rows were found when one or none was required"⟩

def generateSlug (email tokenHex : String) : String :=
  let base := email.toList.takeWhile (· ≠ '@')
  String.ofList ((base.filter lib.isalnum).take 30) ++ "_" ++ tokenHex

def newRows (req : RegisterRequest) (fresh : Fresh) : Except PyError Rows := do
  let passwordHash ← lib.hashpw req.password fresh.salt
  return {
    tenant := ⟨fresh.tenantId, generateSlug lib req.email fresh.tokenHex,
      (if req.name = "" then req.email else req.name) ++ "'s Tenant", "pro", "active"⟩
    organization := ⟨fresh.organizationId, fresh.tenantId, "Default Organization", "default", true⟩
    user := ⟨fresh.userId, fresh.tenantId, some fresh.organizationId, req.email, req.name, "developer",
      some passwordHash⟩ }

/-- The primary keys, the slug of a tenant, and the index `idx_users_tenant_email`. -/
def Database.violated (db : Database) (rows : Rows) : Bool :=
  (db.tenants.any fun t => decide (t.id = rows.tenant.id ∨ t.slug = rows.tenant.slug)) ||
    (db.organizations.any fun o => decide (o.id = rows.organization.id)) ||
    db.users.any fun u => decide (u.id = rows.user.id ∨ u.tenantId = rows.user.tenantId ∧ u.email = rows.user.email)

def Database.insert (db : Database) (rows : Rows) : Database where
  tenants := db.tenants ++ [rows.tenant]
  organizations := db.organizations ++ [rows.organization]
  users := db.users ++ [rows.user]

def invalidLogin : PyError := httpException "401" "Invalid email or password"

def login (now : ℤ) (db : Database) (req : LoginRequest) : Except PyError TokenResponse := do
  match ← scalarOneOrNone (usersOf db req.email) with
  | none => throw invalidLogin
  | some user =>
    match user.passwordHash with
    | none => throw ⟨.attributeError, "'NoneType' object has no attribute 'encode'"⟩
    | some passwordHash =>
      if ← lib.checkpw req.password passwordHash then
        let joined := db.tenants.flatMap fun t => db.organizations.map fun o => (t, o)
        match joined.find? fun r => decide (r.1.id = user.tenantId ∧ some r.2.id = user.organizationId) with
        | some (tenant, org) => return tokenResponse lib now tenant org user
        | none => throw (httpException "500" "Tenant or organization not found")
      else throw invalidLogin

/-! ## Requests that overlap -/

inductive Stage where
  | read
  | inserted (rows : Rows)
  | returned (response : Except PyError TokenResponse)

structure State where
  db : Database
  requests : OrderedDict ℕ (RegisterRequest × Stage)

def State.init : State := ⟨⟨[], [], []⟩, .empty⟩

inductive Label where
  | registerReads (id : ℕ) (req : RegisterRequest)
  | registerInserts (id : ℕ) (fresh : Fresh)
  | registerCommits (id : ℕ) (now : ℤ)
  | logsIn (req : LoginRequest)

def afterRead (db : Database) (email : String) : Stage :=
  match scalarOneOrNone (usersOf db email) with
  | .error e => .returned (.error e)
  | .ok (some _) => .returned (.error (httpException "400" "User with this email already exists"))
  | .ok none => .read

def afterInsert (req : RegisterRequest) (fresh : Fresh) : Stage :=
  match newRows lib req fresh with
  | .error e => .returned (.error e)
  | .ok rows => .inserted rows

def afterCommit (now : ℤ) (db : Database) (rows : Rows) : Database × Stage :=
  if db.violated rows then (db, .returned (.error ⟨.databaseError, "UNIQUE constraint failed"⟩))
  else (db.insert rows, .returned (.ok (tokenResponse lib now rows.tenant rows.organization rows.user)))

def step (s : State) : Label → Option State
  | .registerReads id req =>
    if (s.requests.get? id).isNone then
      some { s with requests := s.requests.set id (req, afterRead s.db req.email) }
    else none
  | .registerInserts id fresh =>
    match s.requests.get? id with
    | some (req, .read) => some { s with requests := s.requests.set id (req, afterInsert lib req fresh) }
    | _ => none
  | .registerCommits id now =>
    match s.requests.get? id with
    | some (req, .inserted rows) =>
      let (db, stage) := afterCommit lib now s.db rows
      some ⟨db, s.requests.set id (req, stage)⟩
    | _ => none
  | .logsIn _ => some s

/-- An email has one user, and whoever was told that he is registered can log in. -/
def Sound (s : State) : Prop :=
  (∀ email, (usersOf s.db email).length ≤ 1) ∧
    ∀ id req response now, s.requests.get? id = some (req, .returned (.ok response)) →
      ∃ r, login lib now s.db ⟨req.email, req.password⟩ = .ok r

/-- Rows that are committed are those of a new email. -/
def NewEmail (s : State) : Label → Prop
  | .registerCommits id _ => ∀ req rows, s.requests.get? id = some (req, .inserted rows) →
      s.db.violated rows = false → usersOf s.db rows.user.email = []
  | _ => True

/-- A password matches its own hash. -/
def Library.Lawful : Prop := ∀ password salt hash, lib.hashpw password salt = .ok hash → lib.checkpw password hash = .ok true

variable {lib} {s s' : State}

/-! ## Accounts -/

/-- The user logs in with this password as soon as nobody else has his email. -/
structure Account (lib : Library) (db : Database) (email password : String) (u : UserModel) : Prop where
  mem : u ∈ db.users
  email : u.email = email
  password : ∃ hash, u.passwordHash = some hash ∧ lib.checkpw password hash = .ok true
  tenant : ∃ t ∈ db.tenants, t.id = u.tenantId
  organization : ∃ o ∈ db.organizations, some o.id = u.organizationId

theorem Account.insert {db : Database} {email password : String} {u : UserModel} (h : Account lib db email password u)
    (rows : Rows) : Account lib (db.insert rows) email password u := by
  obtain ⟨t, ht, htid⟩ := h.tenant
  obtain ⟨o, ho, hoid⟩ := h.organization
  exact ⟨List.mem_append_left _ h.mem, h.email, h.password, ⟨t, List.mem_append_left _ ht, htid⟩,
    ⟨o, List.mem_append_left _ ho, hoid⟩⟩

theorem Account.login {db : Database} {email password : String} {u : UserModel} (h : Account lib db email password u)
    (hone : (usersOf db email).length ≤ 1) (now : ℤ) : ∃ r, login lib now db ⟨email, password⟩ = .ok r := by
  have husers : usersOf db email = [u] := by
    have hmem : u ∈ usersOf db email := List.mem_filter.mpr ⟨h.mem, decide_eq_true h.email⟩
    cases hlist : usersOf db email with
    | nil =>
      rw [hlist] at hmem
      cases hmem
    | cons v rest =>
      rw [hlist] at hmem hone
      obtain rfl : rest = [] := List.length_eq_zero_iff.mp (by simpa using hone)
      rw [List.mem_singleton.mp hmem]
  obtain ⟨hash, hhash, hmatch⟩ := h.password
  obtain ⟨t, ht, htid⟩ := h.tenant
  obtain ⟨o, ho, hoid⟩ := h.organization
  have hjoined : ((db.tenants.flatMap fun t => db.organizations.map fun o => (t, o)).find? fun r =>
      decide (r.1.id = u.tenantId ∧ some r.2.id = u.organizationId)).isSome := by
    rw [List.find?_isSome]
    refine ⟨(t, o), List.mem_flatMap.mpr ⟨t, ht, List.mem_map.mpr ⟨o, ho, rfl⟩⟩, decide_eq_true ⟨htid, hoid⟩⟩
  obtain ⟨row, hrow⟩ := Option.isSome_iff_exists.mp hjoined
  refine ⟨tokenResponse lib now row.1 row.2 u, ?_⟩
  unfold Auth.login
  simp only [husers, scalarOneOrNone, bind, Except.bind, hhash, hmatch, if_true, hrow]
  rfl

variable (lib) in
/-- What the rows of a registration hold before they are committed. -/
structure Prepared (req : RegisterRequest) (rows : Rows) : Prop where
  email : rows.user.email = req.email
  password : ∃ hash, rows.user.passwordHash = some hash ∧ lib.checkpw req.password hash = .ok true
  tenant : rows.tenant.id = rows.user.tenantId
  organization : some rows.organization.id = rows.user.organizationId

theorem prepared_newRows (hlib : lib.Lawful) {req : RegisterRequest} {fresh : Fresh} {rows : Rows}
    (h : newRows lib req fresh = .ok rows) : Prepared lib req rows := by
  obtain ⟨hash, hhash, hrows⟩ := bind_eq_ok_iff.mp h
  obtain rfl := Except.ok.inj hrows
  exact ⟨rfl, ⟨hash, rfl, hlib _ _ _ hhash⟩, rfl, rfl⟩

theorem Prepared.account {req : RegisterRequest} {rows : Rows} (h : Prepared lib req rows) (db : Database) :
    Account lib (db.insert rows) req.email req.password rows.user :=
  ⟨by simp [Database.insert], h.email, h.password, ⟨rows.tenant, by simp [Database.insert], h.tenant⟩,
    ⟨rows.organization, by simp [Database.insert], h.organization⟩⟩

/-! ## The invariant -/

variable (lib) in
structure Inv (s : State) : Prop where
  prepared : ∀ id req rows, s.requests.get? id = some (req, .inserted rows) → Prepared lib req rows
  registered : ∀ id req response, s.requests.get? id = some (req, .returned (.ok response)) →
    ∃ u, Account lib s.db req.email req.password u

theorem Inv.init : Inv lib State.init := ⟨nofun, nofun⟩

/-- A request that goes on to a stage that is neither prepared nor a success. -/
theorem Inv.set {id : ℕ} {req : RegisterRequest} {stage : Stage} (h : Inv lib s)
    (hprepared : ∀ rows, stage = .inserted rows → Prepared lib req rows)
    (hregistered : ∀ response, stage ≠ .returned (.ok response)) :
    Inv lib { s with requests := s.requests.set id (req, stage) } := by
  refine ⟨fun id' req' rows hget => ?_, fun id' req' response hget => ?_⟩
  · rw [OrderedDict.get?_set] at hget
    split_ifs at hget with hid
    · obtain ⟨rfl, hstage⟩ := Prod.mk.inj (Option.some.inj hget)
      exact hprepared rows hstage
    · exact h.prepared id' req' rows hget
  · rw [OrderedDict.get?_set] at hget
    split_ifs at hget with hid
    · obtain ⟨rfl, hstage⟩ := Prod.mk.inj (Option.some.inj hget)
      exact absurd hstage (hregistered response)
    · exact h.registered id' req' response hget

theorem Inv.commit {id : ℕ} {req : RegisterRequest} {rows : Rows} {response : TokenResponse} (h : Inv lib s)
    (hprepared : Prepared lib req rows) :
    Inv lib ⟨s.db.insert rows, s.requests.set id (req, .returned (.ok response))⟩ := by
  refine ⟨fun id' req' rows' hget => ?_, fun id' req' response' hget => ?_⟩
  · rw [OrderedDict.get?_set] at hget
    split_ifs at hget with hid
    · cases (Prod.mk.inj (Option.some.inj hget)).2
    · exact h.prepared id' req' rows' hget
  · rw [OrderedDict.get?_set] at hget
    split_ifs at hget with hid
    · obtain ⟨rfl, _⟩ := Prod.mk.inj (Option.some.inj hget)
      exact ⟨rows.user, hprepared.account s.db⟩
    · obtain ⟨u, hu⟩ := h.registered id' req' response' hget
      exact ⟨u, hu.insert rows⟩

/-- A step leaves the users alone, or commits the rows of a registration. -/
theorem step_cases {i : Label} (h : step lib s i = some s') :
    (s'.db = s.db ∧ (Inv lib s → lib.Lawful → Inv lib s')) ∨
      ∃ id now req rows, i = .registerCommits id now ∧ s.requests.get? id = some (req, .inserted rows) ∧
        s.db.violated rows = false ∧ s'.db = s.db.insert rows ∧ (Inv lib s → Inv lib s') := by
  cases i with
  | registerReads id req =>
    simp only [step] at h
    split_ifs at h
    obtain rfl := Option.some.inj h
    refine Or.inl ⟨rfl, fun hinv _ => hinv.set ?_ ?_⟩
    · intro rows hstage
      unfold afterRead at hstage
      split at hstage <;> cases hstage
    · intro response hstage
      unfold afterRead at hstage
      split at hstage <;> cases hstage
  | registerInserts id fresh =>
    simp only [step] at h
    split at h
    · rename_i req hget
      obtain rfl := Option.some.inj h
      refine Or.inl ⟨rfl, fun hinv hlib => hinv.set ?_ ?_⟩
      · intro rows hstage
        unfold afterInsert at hstage
        split at hstage
        · cases hstage
        · rename_i rows' hrows
          obtain rfl := Stage.inserted.inj hstage
          exact prepared_newRows hlib hrows
      · intro response hstage
        unfold afterInsert at hstage
        split at hstage <;> cases hstage
    · cases h
  | registerCommits id now =>
    simp only [step] at h
    split at h
    · rename_i req rows hget
      obtain rfl := Option.some.inj h
      unfold afterCommit
      cases hviolated : s.db.violated rows with
      | true => exact Or.inl ⟨rfl, fun hinv _ => hinv.set (fun _ hrows => by cases hrows) (fun _ hok => by cases hok)⟩
      | false =>
        exact Or.inr ⟨id, now, req, rows, rfl, hget, hviolated, rfl,
          fun hinv => hinv.commit (hinv.prepared id req rows hget)⟩
    · cases h
  | logsIn req =>
    obtain rfl := Option.some.inj h
    exact Or.inl ⟨rfl, fun hinv _ => hinv⟩

theorem Inv.step (hlib : lib.Lawful) {i : Label} (h : Inv lib s) (hstep : Auth.step lib s i = some s') : Inv lib s' := by
  rcases step_cases hstep with ⟨_, hkept⟩ | ⟨_, _, _, _, _, _, _, _, hkept⟩
  · exact hkept h hlib
  · exact hkept h

/-! ## One user for an email -/

/-- Whoever is registered logs in while emails are unique. -/
theorem Inv.sound (h : Inv lib s) (hone : ∀ email, (usersOf s.db email).length ≤ 1) : Sound lib s := by
  refine ⟨hone, fun id req response now hget => ?_⟩
  obtain ⟨u, hu⟩ := h.registered id req response hget
  exact hu.login (hone req.email) now

theorem usersOf_insert (db : Database) (rows : Rows) (email : String) :
    usersOf (db.insert rows) email = usersOf db email ++ if rows.user.email = email then [rows.user] else [] := by
  unfold usersOf Database.insert
  rw [List.filter_append]
  split_ifs with h
  · simp [h]
  · simp [h]

theorem Sound.step (hlib : lib.Lawful) {i : Label} (hinv : Inv lib s) (h : Sound lib s) (hnew : NewEmail s i)
    (hstep : Auth.step lib s i = some s') : Sound lib s' := by
  refine (hinv.step hlib hstep).sound fun email => ?_
  rcases step_cases hstep with ⟨hsame, _⟩ | ⟨id, now, req, rows, rfl, hget, hfree, hdb, _⟩
  · rw [hsame]
    exact h.1 email
  · rw [hdb, usersOf_insert]
    split_ifs with hemail
    · rw [← hemail, hnew req rows hget hfree]
      exact le_rfl
    · rw [List.append_nil]
      exact h.1 email

theorem not_sound_of_commit {i : Label} (hbad : ¬ NewEmail s i) : ∃ s', Auth.step lib s i = some s' ∧ ¬ Sound lib s' := by
  cases i with
  | registerReads => exact absurd trivial hbad
  | registerInserts => exact absurd trivial hbad
  | logsIn => exact absurd trivial hbad
  | registerCommits id now =>
    simp only [NewEmail, not_forall] at hbad
    obtain ⟨req, rows, hget, hfree, htaken⟩ := hbad
    refine ⟨⟨s.db.insert rows, s.requests.set id (req, .returned (.ok (tokenResponse lib now rows.tenant
      rows.organization rows.user)))⟩, ?_, fun hsound => ?_⟩
    · simp [Auth.step, hget, afterCommit, hfree]
    · have hone := hsound.1 rows.user.email
      rw [usersOf_insert, if_pos rfl, List.length_append, List.length_singleton] at hone
      exact htaken (List.length_eq_zero_iff.mp (by omega))

end Routes

/-- **Emails stay unique, and the registered log in, in exactly those runs where no registration commits an email that
is there by then.** -/
theorem sound_iff_guarded (lib : Library) (hlib : lib.Lawful) (is : List Label) :
    (∀ js ks s, is = js ++ ks → exec (step lib) State.init js = some s → Sound lib s) ↔
      Guarded (step lib) NewEmail State.init is :=
  always_iff_guarded (fun _ _ _ h hstep => Inv.step hlib h hstep)
    (fun _ _ _ hinv h hnew hstep => Sound.step hlib hinv h hnew hstep) (fun _ _ _ _ hbad => not_sound_of_commit hbad)
    Inv.init (Inv.init.sound fun _ => Nat.zero_le _) is

/-! ## Two registrations of one email -/

/-- A cipher that hides nothing. -/
def plain : Library where
  hashpw password _ := .ok password
  checkpw password hash := .ok (decide (password = hash))
  encode _ := ""
  isalnum c := c.isAlphanum

theorem plain_lawful : plain.Lawful := by
  intro password salt hash h
  obtain rfl := Except.ok.inj h
  exact congrArg Except.ok (decide_eq_true rfl)

def alice (password : String) : RegisterRequest := ⟨"alice@example.org", password, ""⟩

def first : Fresh := ⟨"t1", "o1", "u1", "01", "s1"⟩

def second : Fresh := ⟨"t2", "o2", "u2", "02", "s2"⟩

/-- The second registration reads when the first is committed, and is turned away. -/
def inTurn : List Label :=
  [.registerReads 1 (alice "x"), .registerInserts 1 first, .registerCommits 1 0, .registerReads 2 (alice "y")]

theorem guarded_inTurn : Guarded (step plain) NewEmail State.init inTurn := by
  refine ⟨trivial, fun s₁ h₁ => ⟨trivial, fun s₂ h₂ => ⟨?_, fun _ _ => ⟨trivial, fun _ _ => trivial⟩⟩⟩⟩
  obtain rfl := Option.some.inj h₁
  obtain rfl := Option.some.inj h₂
  intro req rows _ _
  rfl

theorem isSome_inTurn : (exec (step plain) State.init inTurn).isSome = true := by decide +kernel

theorem sound_inTurn : Sound plain ((exec (step plain) State.init inTurn).get isSome_inTurn) :=
  (sound_iff_guarded plain plain_lawful inTurn).mpr guarded_inTurn inTurn [] _ (List.append_nil _).symm
    (Option.some_get isSome_inTurn).symm

/-- Both read before one of them commits. -/
def bothAtOnce : List Label :=
  [.registerReads 1 (alice "x"), .registerReads 2 (alice "y"), .registerInserts 1 first, .registerInserts 2 second,
    .registerCommits 1 0, .registerCommits 2 0]

theorem isSome_bothAtOnce : (exec (step plain) State.init bothAtOnce).isSome = true := by decide +kernel

theorem two_users_of_one_email : ¬ ∀ (lib : Library) (is : List Label) (s : State), lib.Lawful →
    exec (step lib) State.init is = some s → Sound lib s := by
  intro h
  have hsound := h plain bothAtOnce _ plain_lawful (Option.some_get isSome_bothAtOnce).symm
  exact absurd (hsound.1 "alice@example.org") (by decide +kernel)

end KernelRuntime.Auth
