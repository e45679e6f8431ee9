import Mathlib.Data.List.Sort
import KernelRuntime.Api.WorkspaceRecords

/-! # Forks of a session

`fork_session` copies a session up to a message. It hands the workspaces of the session to `prepare_workspaces` as
dictionaries, where the other routes hand over bindings. -/

namespace KernelRuntime.SessionFork
open WorkspaceRoots WorkspaceRecords
set_option autoImplicit false

structure TokenPayload where
  tenantId : String
  userId : String
  organizationId : Option String
deriving DecidableEq

structure SessionModel where
  id : String
  tenantId : String
  organizationId : Option String
  userId : String
  name : String
  userRole : String
  mode : String
  workspaces : List WorkspaceModel
deriving DecidableEq

structure MessageModel where
  id : String
  tenantId : String
  sessionId : String
  taskId : Option String
  role : String
  content : String
  toolCallId : Option String
  toolCalls : Option String
  extraMetadata : Json
  sequence : ℤ
deriving DecidableEq

structure Database where
  sessions : List SessionModel
  messages : List MessageModel
  records : WorkspaceRecords.State
deriving DecidableEq

/-- Identifiers that nothing had before: of the new session, of its messages, and the hex text for a slug. -/
structure Fresh where
  sessionId : String
  messageId : ℕ → String
  hex : String

/-- An item of the list that `prepare_workspaces` is called with; a binding has the hex text of a fresh identifier. -/
inductive WorkspaceData where
  | binding (ws : WorkspaceBinding) (hex : String)
  | dict (fields : Fields)

/-! ## The route -/

/-- `prepare_workspaces` on whatever it is called with: the rows, and the disk afterwards. -/
def prepareData (m : Machine) (tenantId : String) (t : FileTree) :
    List WorkspaceData → Except PyError (List WorkspaceRow) × FileTree
  | [] => (.ok [], t)
  | .dict _ :: _ => (.error ⟨.attributeError, "'dict' object has no attribute 'slug'"⟩, t)
  | .binding ws hex :: rest =>
    let prepared := prepareWorkspace m tenantId t ws hex
    match prepared.row with
    | none => (.error ⟨.other, "directory not made"⟩, prepared.disk)
    | some row =>
      let later := prepareData m tenantId prepared.disk rest
      (later.1.map (row :: ·), later.2)

/-- `workspaces or [WorkspaceBinding(type="local")]`. -/
def orDefault (workspaces : List WorkspaceData) (hex : String) : List WorkspaceData :=
  if workspaces.isEmpty then [.binding ⟨⟨"local", none, none, none⟩, "main"⟩ hex] else workspaces

def getOrCreateAll (s : WorkspaceRecords.State) (tenantId : String) :
    List WorkspaceRow → List WorkspaceModel × WorkspaceRecords.State
  | [] => ([], s)
  | data :: rest =>
    let first := getOrCreateWorkspace s tenantId data
    let later := getOrCreateAll first.2 tenantId rest
    (first.1 :: later.1, later.2)

/-- `get_session_or_404`. -/
def getSession (db : Database) (tenantId sessionId : String) : Option SessionModel :=
  db.sessions.find? fun s => decide (s.id = sessionId ∧ s.tenantId = tenantId)

/-- `[{"slug": ws.slug, "name": ws.name} for ws in old_session.workspaces]`. -/
def workspaceData (old : SessionModel) : List WorkspaceData :=
  old.workspaces.map fun ws => .dict [("slug", .str ws.slug), ("name", .str ws.name)]

def messagesOf (db : Database) (tenantId sessionId : String) : List MessageModel :=
  db.messages.filter fun msg => decide (msg.sessionId = sessionId ∧ msg.tenantId = tenantId)

/-- `.order_by(MessageModel.sequence.asc())`. -/
def inOrder (messages : List MessageModel) : List MessageModel :=
  messages.insertionSort fun a b => a.sequence ≤ b.sequence

/-- The messages of a session up to the branch point. -/
def upTo (db : Database) (tenantId sessionId : String) (branch : MessageModel) : List MessageModel :=
  inOrder ((messagesOf db tenantId sessionId).filter fun msg => decide (msg.sequence ≤ branch.sequence))

def copyMessage (tenantId sessionId id : String) (old : MessageModel) : MessageModel :=
  { old with id := id, tenantId := tenantId, sessionId := sessionId }

def copies (tenantId : String) (fresh : Fresh) (messages : List MessageModel) : List MessageModel :=
  messages.mapIdx fun i old => copyMessage tenantId fresh.sessionId (fresh.messageId i) old

/-- The messages of the new session; none where the branch point is no message of the old one. -/
def copiedMessages (db : Database) (tenantId sessionId messageId : String) (fresh : Fresh) : List MessageModel :=
  match (messagesOf db tenantId sessionId).find? fun msg => decide (msg.id = messageId) with
  | none => []
  | some branch => copies tenantId fresh (upTo db tenantId sessionId branch)

def newSession (user : TokenPayload) (old : SessionModel) (fresh : Fresh) (workspaces : List WorkspaceModel) :
    SessionModel :=
  ⟨fresh.sessionId, user.tenantId, user.organizationId, user.userId, old.name ++ " (Fork)", old.userRole, old.mode,
    workspaces⟩

/-- `fork_session`. The database may not commit. -/
def forkSession (m : Machine) (user : TokenPayload) (db : Database) (t : FileTree) (sessionId messageId : String)
    (fresh : Fresh) (commits : Bool) : Except PyError Database × FileTree :=
  match getSession db user.tenantId sessionId with
  | none => (.error ⟨.other, "404: Session not found"⟩, t)
  | some old =>
    let prepared := prepareData m user.tenantId t (orDefault (workspaceData old) fresh.hex)
    match prepared.1 with
    | .error e => (.error e, prepared.2)
    | .ok rows =>
      let bound := getOrCreateAll db.records user.tenantId rows
      if commits then
        (.ok ⟨db.sessions ++ [newSession user old fresh bound.1],
          db.messages ++ copiedMessages db user.tenantId sessionId messageId fresh,
          { bound.2 with saved := bound.2.rows }⟩, prepared.2)
      else (.error ⟨.databaseError, "commit failed"⟩, prepared.2)

/-! ## What a fork should be -/

/-- What a copy has of a message: its role, its content and so on, without identifiers of its own. -/
def contentOf (msg : MessageModel) :=
  (msg.role, msg.content, msg.toolCallId, msg.toolCalls, msg.extraMetadata, msg.taskId, msg.sequence)

/-- A new session with the workspaces of the old one and copies of its messages up to `message`. -/
structure Forked (db db' : Database) (old : SessionModel) (message : MessageModel) (session : SessionModel) :
    Prop where
  created : session ∈ db'.sessions
  new : ∀ s ∈ db.sessions, s.id ≠ session.id
  workspaces : ∀ w, w ∈ session.workspaces ↔ w ∈ old.workspaces
  messages : (inOrder (messagesOf db' session.tenantId session.id)).map contentOf =
    (upTo db old.tenantId old.id message).map contentOf
  kept : old ∈ db'.sessions ∧ messagesOf db' old.tenantId old.id = messagesOf db old.tenantId old.id

/-! ## What a fork is -/

section Fork
variable {m : Machine} {user : TokenPayload} {db db' : Database} {t : FileTree} {sessionId messageId : String}
  {fresh : Fresh} {commits : Bool} {old : SessionModel}

/-- Bindings give the rows that `prepare_workspaces` has for the other routes. -/
theorem prepareData_bindings {tenantId : String} {workspaces : List (WorkspaceBinding × String)}
    {rows : List WorkspaceRow} :
    (prepareData m tenantId t (workspaces.map fun ws => .binding ws.1 ws.2)).1 = .ok rows ↔
      (prepareAll m tenantId t workspaces).map Prepared.row = rows.map some := by
  induction workspaces generalizing t rows with
  | nil =>
    simp only [List.map_nil, prepareData, prepareAll, Except.ok.injEq]
    exact ⟨fun h => h ▸ rfl, fun h => (List.map_eq_nil_iff.mp h.symm).symm⟩
  | cons ws rest ih =>
    simp only [List.map_cons, prepareData, prepareAll]
    cases hrow : (prepareWorkspace m tenantId t ws.1 ws.2).row with
    | none =>
      refine iff_of_false nofun fun h => ?_
      cases rows with
      | nil => cases h
      | cons row rows => cases (List.cons.inj h).1
    | some row =>
      simp only [map_eq_ok_iff, ih, Option.isSome_some, if_true]
      constructor
      · rintro ⟨later, hlater, rfl⟩
        rw [hlater]
        rfl
      · intro h
        cases rows with
        | nil => cases h
        | cons first later =>
          obtain ⟨hfirst, hlater⟩ := List.cons.inj h
          exact ⟨later, hlater, by rw [Option.some.inj hfirst]⟩

/-- A dictionary has no slug to read. -/
theorem prepareData_workspaceData {ws : WorkspaceModel} {rest : List WorkspaceModel}
    (hws : old.workspaces = ws :: rest) (tenantId hex : String) : prepareData m tenantId t (orDefault (workspaceData old) hex) =
      (.error ⟨.attributeError, "'dict' object has no attribute 'slug'"⟩, t) := by
  unfold workspaceData
  rw [hws]
  rfl

/-- A fork that succeeds is one of a session without workspaces, and has a new workspace. -/
theorem forkSession_eq_ok (hold : getSession db user.tenantId sessionId = some old)
    (h : (forkSession m user db t sessionId messageId fresh commits).1 = .ok db') : old.workspaces = [] ∧
      ∃ ws, db'.sessions = db.sessions ++ [newSession user old fresh [ws]] ∧
        db'.messages = db.messages ++ copiedMessages db user.tenantId sessionId messageId fresh := by
  unfold forkSession at h
  simp only [hold] at h
  cases hws : old.workspaces with
  | cons ws rest =>
    rw [prepareData_workspaceData hws] at h
    cases h
  | nil =>
    refine ⟨rfl, ?_⟩
    have hdata : orDefault (workspaceData old) fresh.hex =
        [.binding ⟨⟨"local", none, none, none⟩, "main"⟩ fresh.hex] := by
      unfold workspaceData
      rw [hws]
      rfl
    rw [hdata] at h
    unfold prepareData at h
    simp only at h
    cases hrow : (prepareWorkspace m user.tenantId t ⟨⟨"local", none, none, none⟩, "main"⟩ fresh.hex).row with
    | none =>
      rw [hrow] at h
      cases h
    | some row =>
      rw [hrow] at h
      simp only [prepareData, Except.map] at h
      split_ifs at h
      cases h
      exact ⟨_, rfl, rfl⟩

/-- **No fork is faithful: it raises, or binds a workspace that the session did not have.** -/
theorem fork_never_faithful (hold : getSession db user.tenantId sessionId = some old) (message : MessageModel) :
    ¬ ∃ db' session, (forkSession m user db t sessionId message.id fresh commits).1 = .ok db' ∧
      Forked db db' old message session := by
  rintro ⟨db', session, hfork, hforked⟩
  obtain ⟨hnone, ws, hsessions, _⟩ := forkSession_eq_ok hold hfork
  have hcreated := hforked.created
  rw [hsessions] at hcreated
  rcases List.mem_append.mp hcreated with hbefore | hnew
  · exact hforked.new session hbefore rfl
  · obtain rfl := List.mem_singleton.mp hnew
    have hws := (hforked.workspaces ws).mp (List.mem_singleton_self _)
    rw [hnone] at hws
    cases hws

/-! ## The messages of a fork -/

theorem mem_copiedMessages {msg : MessageModel}
    (h : msg ∈ copiedMessages db user.tenantId sessionId messageId fresh) :
    msg.sessionId = fresh.sessionId ∧ msg.tenantId = user.tenantId := by
  unfold copiedMessages at h
  split at h
  · cases h
  · obtain ⟨i, hi, rfl⟩ := List.mem_mapIdx.mp h
    exact ⟨rfl, rfl⟩

theorem map_copies {γ : Type} {g : MessageModel → γ} {tenantId : String}
    (hsame : ∀ id msg, g (copyMessage tenantId fresh.sessionId id msg) = g msg) (messages : List MessageModel) :
    (copies tenantId fresh messages).map g = messages.map g := by
  unfold copies
  refine List.ext_getElem (by simp) fun i hi hi' => ?_
  simp [hsame]

theorem inOrder_of_sorted {messages : List MessageModel} (h : (messages.map MessageModel.sequence).Pairwise (· ≤ ·)) :
    inOrder messages = messages := by
  unfold inOrder
  exact (List.pairwise_map.mp h).insertionSort_eq

theorem sorted_inOrder (messages : List MessageModel) :
    ((inOrder messages).map MessageModel.sequence).Pairwise (· ≤ ·) := by
  have htotal : Std.Total fun a b : MessageModel => a.sequence ≤ b.sequence := ⟨fun a b => le_total _ _⟩
  have htrans : IsTrans MessageModel fun a b => a.sequence ≤ b.sequence := ⟨fun a b c => le_trans⟩
  exact List.pairwise_map.mpr (List.pairwise_insertionSort _ messages)

/-- The messages of a fork that succeeds are those of the session up to the branch point, and the session stays as
it is. -/
theorem fork_copies {message : MessageModel} (hold : getSession db user.tenantId sessionId = some old)
    (hmessage : ((messagesOf db user.tenantId sessionId).find? fun msg => decide (msg.id = messageId)) = some message)
    (hfresh : ∀ msg ∈ db.messages, msg.sessionId ≠ fresh.sessionId)
    (h : (forkSession m user db t sessionId messageId fresh commits).1 = .ok db') :
    (inOrder (messagesOf db' user.tenantId fresh.sessionId)).map contentOf =
        (upTo db user.tenantId sessionId message).map contentOf ∧
      old ∈ db'.sessions ∧ messagesOf db' user.tenantId sessionId = messagesOf db user.tenantId sessionId := by
  obtain ⟨_, ws, hsessions, hmessages⟩ := forkSession_eq_ok hold h
  have hmem := List.mem_of_find?_eq_some hmessage
  have hother : fresh.sessionId ≠ sessionId := by
    obtain ⟨hmsg, hof⟩ := List.mem_filter.mp hmem
    rw [decide_eq_true_eq] at hof
    exact fun heq => hfresh message hmsg (hof.1.trans heq.symm)
  have hnew : messagesOf db' user.tenantId fresh.sessionId =
      copiedMessages db user.tenantId sessionId messageId fresh := by
    unfold messagesOf
    rw [hmessages, List.filter_append, List.filter_eq_nil_iff.mpr fun msg hmsg => by simp [hfresh msg hmsg],
      List.nil_append]
    exact List.filter_eq_self.mpr fun msg hmsg => decide_eq_true (mem_copiedMessages hmsg)
  have hsame : messagesOf db' user.tenantId sessionId = messagesOf db user.tenantId sessionId := by
    have hnone : messagesOf ⟨[], copiedMessages db user.tenantId sessionId messageId fresh, db.records⟩ user.tenantId
        sessionId = [] := List.filter_eq_nil_iff.mpr fun msg hmsg => by simp [(mem_copiedMessages hmsg).1, hother]
    unfold messagesOf at hnone ⊢
    rw [hmessages, List.filter_append, hnone, List.append_nil]
  have hcopied : copiedMessages db user.tenantId sessionId messageId fresh =
      copies user.tenantId fresh (upTo db user.tenantId sessionId message) := by
    unfold copiedMessages
    rw [hmessage]
  refine ⟨?_, ?_, hsame⟩
  · rw [hnew, hcopied, inOrder_of_sorted ?_]
    · exact map_copies (fun id msg => rfl) _
    · rw [map_copies fun id msg => rfl]
      exact sorted_inOrder _
  · rw [hsessions]
    exact List.mem_append_left _ (List.mem_of_find?_eq_some hold)

end Fork

/-! ## A session with a workspace -/

def acmeUser : TokenPayload := ⟨"acme", "u1", none⟩

def appWorkspace : WorkspaceModel := ⟨0, "acme", "app", "app", "git", none, some "https://github.com/acme/app", "main"⟩

def firstMessage : MessageModel := ⟨"m1", "acme", "s1", none, "user", "hello", none, none, .obj [], 0⟩

/-- A session with some workspaces, and its message. -/
def sessionWith (workspaces : List WorkspaceModel) : Database :=
  ⟨[⟨"s1", "acme", none, "u1", "New Session", "developer", "web", workspaces⟩], [firstMessage],
    ⟨[appWorkspace], [appWorkspace], 1, []⟩⟩

def freshIds : Fresh := ⟨"s2", fun i => "f" ++ toString i, "0123456789"⟩

theorem fork_never_faithful_bare : ¬ ∃ db' session,
    (forkSession openMachine acmeUser (sessionWith []) acmeTree "s1" firstMessage.id freshIds true).1 = .ok db' ∧
      Forked (sessionWith []) db' ⟨"s1", "acme", none, "u1", "New Session", "developer", "web", []⟩ firstMessage
        session :=
  fork_never_faithful rfl firstMessage

/-- A fork of a session with a workspace raises. -/
theorem fork_raises : ¬ ∃ db' session,
    (forkSession openMachine acmeUser (sessionWith [appWorkspace]) acmeTree "s1" "m1" freshIds true).1 = .ok db' ∧
      Forked (sessionWith [appWorkspace]) db'
        ⟨"s1", "acme", none, "u1", "New Session", "developer", "web", [appWorkspace]⟩ firstMessage session := by
  rintro ⟨db', session, hfork, _⟩
  cases hfork

end KernelRuntime.SessionFork
