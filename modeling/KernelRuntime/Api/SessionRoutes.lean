import KernelRuntime.AgentLoop.System
import KernelRuntime.Api.SessionConfig
import KernelRuntime.Api.SessionFork
import KernelRuntime.Foundations.Noninterference
import KernelRuntime.Storage.Mount

/-! # The routes of sessions, chats and tasks

A request makes its statements one at a time, and other requests make theirs in between. What a request adds or
changes is written when it commits; the columns it set, and no others. -/

namespace KernelRuntime.SessionRoutes
open WorkspaceRoots (WorkspaceBinding WorkspaceRow)
open SessionConfig (SessionConfigRequest httpException)
open AgentLoop (ChatRequest)
set_option autoImplicit false

/-! ## Tables -/

structure SessionModel where
  id : String
  tenantId : String
  organizationId : Option String
  userId : String
  name : String
  mode : String
  userRole : String
  context : Fields
  isActive : Bool
  createdAt : ℤ
  lastActiveAt : ℤ
deriving DecidableEq

structure WorkspaceModel where
  id : String
  tenantId : String
  slug : String
  name : String
  type : String
  path : Option String
  url : Option String
  branch : String
deriving DecidableEq

structure TaskModel where
  id : String
  tenantId : String
  sessionId : String
  description : String
  status : String
  createdAt : ℤ
deriving DecidableEq

structure MessageModel extends SessionFork.MessageModel where
  createdAt : ℤ
deriving DecidableEq

/-- What was published on a stream. -/
structure Publication where
  stream : String
  data : Fields
deriving DecidableEq

/-- The committed tables, and what the broker was given. `bindings` is the table `session_workspace`. -/
structure Store where
  sessions : List SessionModel
  workspaces : List WorkspaceModel
  bindings : List (String × String)
  tasks : List TaskModel
  messages : List MessageModel
  published : List Publication
deriving DecidableEq

def Store.init : Store := ⟨[], [], [], [], [], []⟩

/-- The columns that an update sets. -/
structure SessionColumns where
  name : Option String := none
  context : Option Fields := none
  isActive : Option Bool := none
  lastActiveAt : Option ℤ := none

def SessionColumns.set (columns : SessionColumns) (s : SessionModel) : SessionModel :=
  { s with
    name := columns.name.getD s.name
    context := columns.context.getD s.context
    isActive := columns.isActive.getD s.isActive
    lastActiveAt := columns.lastActiveAt.getD s.lastActiveAt }

/-- What a commit flushes. Rows are updated by their primary keys. -/
inductive Write where
  | addSession (session : SessionModel)
  | addWorkspace (workspace : WorkspaceModel)
  | addBinding (sessionId workspaceId : String)
  | removeBinding (sessionId workspaceId : String)
  | addTask (task : TaskModel)
  | addMessage (message : MessageModel)
  | setSession (id : String) (columns : SessionColumns)
  | setMetadata (id : String) (metadata : Json)

/-- A row is added unless one of the table has its key. -/
def insert {α κ : Type} [DecidableEq κ] (constraint : String) (key : α → κ) (row : α) (rows : List α) :
    Except PyError (List α) :=
  if rows.any fun r => decide (key r = key row) then
    .error ⟨.databaseError, "UNIQUE constraint failed: " ++ constraint⟩
  else .ok (rows ++ [row])

def Store.write (s : Store) : Write → Except PyError Store
  | .addSession session => do
    return { s with sessions := ← insert "sessions.id" SessionModel.id session s.sessions }
  | .addWorkspace workspace => do
    let _ ← insert "workspaces.id" WorkspaceModel.id workspace s.workspaces
    let rows ← insert "workspaces.tenant_id, workspaces.slug" (fun w => (w.tenantId, w.slug)) workspace s.workspaces
    return { s with workspaces := rows }
  | .addBinding sessionId workspaceId => do
    let rows ← insert "session_workspace.session_id, session_workspace.workspace_id" (fun b => b)
      (sessionId, workspaceId) s.bindings
    return { s with bindings := rows }
  | .removeBinding sessionId workspaceId =>
    if (sessionId, workspaceId) ∈ s.bindings then
      .ok { s with bindings := s.bindings.filter fun b => decide (b ≠ (sessionId, workspaceId)) }
    else .error ⟨.databaseError, "DELETE statement on table 'session_workspace' expected to delete 1 row(s)"⟩
  | .addTask task => do
    return { s with tasks := ← insert "tasks.id" TaskModel.id task s.tasks }
  | .addMessage message => do
    return { s with messages := ← insert "messages.id" (fun r : MessageModel => r.id) message s.messages }
  | .setSession id columns =>
    .ok { s with sessions := s.sessions.map fun r => if r.id = id then columns.set r else r }
  | .setMetadata id metadata =>
    .ok { s with messages := s.messages.map fun r => if r.id = id then { r with extraMetadata := metadata } else r }

/-! ## Requests -/

structure TokenPayload extends SessionFork.TokenPayload where
  role : String
deriving DecidableEq

/-- What a request gets from outside: identifiers and hex texts that nothing had before, the times, random bits for the
cipher, whether the rate limiter lets it through, whether its directories can be made, and why a repository could not
be mounted. -/
structure Fresh where
  id : ℕ → String
  hex : ℕ → String
  time : ℕ → ℤ
  entropy : ℕ → ℕ
  admitted : Bool
  made : Bool
  mountError : Option String

structure Machine extends WorkspaceRoots.Machine where
  runtime : SessionConfig.Runtime
  limits : Limits
  isoformat : ℤ → String

abbrev Route := ExceptT PyError (Thread Store)

def Route.ofExcept {α : Type} (result : Except PyError α) : Route α := .mk (pure result)

/-- `db.commit()`. -/
def commit (writes : List Write) : Route Unit := Thread.attempt fun s => writes.foldlM Store.write s

/-- `broker.publish`, which adds the tenant to the data. -/
def publish (stream tenantId : String) (data : Fields) : Route Unit :=
  Thread.attempt fun s =>
    .ok { s with published := s.published ++ [⟨stream, data ++ [("tenant_id", .str tenantId)]⟩] }

/-- A session with its workspaces, as a query loads it. -/
structure Loaded where
  session : SessionModel
  workspaces : List WorkspaceModel

def Store.load (s : Store) (session : SessionModel) : Loaded where
  session := session
  workspaces := (s.bindings.filter fun b => decide (b.1 = session.id)).filterMap fun b =>
    s.workspaces.find? fun w => decide (w.id = b.2)

/-- The rows of a session that the tenant has. -/
def Store.findSession (s : Store) (sessionId tenantId : String) : Option Loaded :=
  (s.sessions.find? fun r => decide (r.id = sessionId ∧ r.tenantId = tenantId)).map s.load

def getSessionOr404 (sessionId tenantId : String) : Route Loaded := do
  match ← Thread.query fun s => s.findSession sessionId tenantId with
  | some loaded => return loaded
  | none => throw (httpException "404" "Session not found")

/-- `db.refresh(session)`. -/
def refresh (sessionId : String) : Route Loaded := do
  match ← Thread.query fun s => (s.sessions.find? fun r => decide (r.id = sessionId)).map s.load with
  | some loaded => return loaded
  | none => throw ⟨.databaseError, "Could not refresh instance"⟩

/-! ## Answers -/

def optional (text : Option String) : Json := (text.map .str).getD .null

def workspaceToDict (ws : WorkspaceModel) : Json :=
  .obj [("type", .str ws.type), ("slug", .str ws.slug), ("name", .str ws.name), ("path", optional ws.path),
    ("url", optional ws.url), ("branch", .str ws.branch)]

def sessionToDict (m : Machine) (loaded : Loaded) : Json :=
  let session := loaded.session
  .obj [("id", .str session.id), ("name", .str session.name), ("tenant_id", .str session.tenantId),
    ("user_id", .str session.userId), ("mode", .str session.mode), ("user_role", .str session.userRole),
    ("workspaces", .arr (loaded.workspaces.map workspaceToDict)), ("is_active", .bool session.isActive),
    ("created_at", .str (m.isoformat session.createdAt)),
    ("last_active_at", .str (m.isoformat session.lastActiveAt))]

/-! ## Workspaces -/

/-- `prepare_workspaces`. -/
def prepareWorkspaces (m : Machine) (tenantId : String) (workspaces : List WorkspaceBinding) (fresh : Fresh) :
    Route (List WorkspaceRow) := do
  if fresh.made then
    let bindings := WorkspaceRoots.bindingsOf (workspaces.mapIdx fun i ws => (ws, fresh.hex i)) (fresh.hex 0)
    return bindings.map fun ws => WorkspaceRecords.dataOf m.toMachine tenantId ws.1 ws.2
  else throw ⟨.other, "OSError"⟩

def newWorkspace (tenantId : String) (data : WorkspaceRow) (id : String) : WorkspaceModel :=
  ⟨id, tenantId, data.slug, data.name, data.type, data.path, data.url, data.branch⟩

/-- `get_or_create_workspace`. The query finds what the request has added itself, too. -/
def getOrCreateWorkspace (tenantId : String) (data : WorkspaceRow) (id : String) (added : List WorkspaceModel) :
    Route (WorkspaceModel × List WorkspaceModel) := do
  let found ← Thread.query fun s =>
    (s.workspaces ++ added).find? fun w => decide (w.tenantId = tenantId ∧ w.slug = data.slug)
  match found with
  | some workspace => return (workspace, added)
  | none => return (newWorkspace tenantId data id, added ++ [newWorkspace tenantId data id])

/-- The workspaces for the rows, and those that were added; each takes the next identifier. -/
def getOrCreateAll (tenantId : String) (id : ℕ → String) :
    ℕ → List WorkspaceRow → List WorkspaceModel → Route (List WorkspaceModel × List WorkspaceModel)
  | _, [], added => return ([], added)
  | i, data :: rest, added => do
    let (workspace, added) ← getOrCreateWorkspace tenantId data (id i) added
    let (later, added) ← getOrCreateAll tenantId id (i + 1) rest added
    return (workspace :: later, added)

/-- What a commit writes for a new session with its workspaces. -/
def newSession (session : SessionModel) (workspaces added : List WorkspaceModel) : List Write :=
  added.map .addWorkspace ++ [.addSession session] ++ workspaces.map fun w => .addBinding session.id w.id

/-! ## Sessions -/

structure SessionCreateRequest where
  name : String := "New Session"
  workspaces : List WorkspaceBinding := []
  mode : String := "web"

/-- `name.strip()[:128]`. -/
def sessionName (name : String) : String := String.ofList ((Gvfs.strip name.toList).take 128)

def createSession (m : Machine) (user : TokenPayload) (req : SessionCreateRequest) (fresh : Fresh) : Route Json := do
  let rows ← prepareWorkspaces m user.tenantId req.workspaces fresh
  let (workspaces, added) ← getOrCreateAll user.tenantId fresh.id 1 rows []
  let session : SessionModel := ⟨fresh.id 0, user.tenantId, user.organizationId, user.userId, sessionName req.name,
    req.mode, user.role, [], true, fresh.time 0, fresh.time 1⟩
  commit (newSession session workspaces added)
  return sessionToDict m (← refresh session.id)

def listSessions (m : Machine) (user : TokenPayload) : Route Json := do
  let sessions ← Thread.query fun s =>
    ((s.sessions.filter fun r => decide (r.tenantId = user.tenantId ∧ r.isActive = true)).insertionSort
      fun a b => b.lastActiveAt ≤ a.lastActiveAt).map s.load
  return .obj [("sessions", .arr (sessions.map (sessionToDict m)))]

def getSession (m : Machine) (user : TokenPayload) (sessionId : String) : Route Json := do
  return sessionToDict m (← getSessionOr404 sessionId user.tenantId)

def renameSession (user : TokenPayload) (sessionId name : String) (fresh : Fresh) : Route Json := do
  let loaded ← getSessionOr404 sessionId user.tenantId
  commit [.setSession loaded.session.id { name := some (sessionName name), lastActiveAt := some (fresh.time 0) }]
  return .obj [("session_id", .str sessionId), ("name", .str (sessionName name))]

def endSession (user : TokenPayload) (sessionId : String) : Route Json := do
  let loaded ← getSessionOr404 sessionId user.tenantId
  commit [.setSession loaded.session.id { isActive := some false }]
  return .obj [("status", .str "ended"), ("session_id", .str sessionId)]

/-! ## Forks -/

/-- The messages of a session, in the order of their sequence numbers. -/
def Store.messagesOf (s : Store) (sessionId tenantId : String) : List MessageModel :=
  (s.messages.filter fun r => decide (r.sessionId = sessionId ∧ r.tenantId = tenantId)).insertionSort
    fun a b => a.sequence ≤ b.sequence

def copyMessage (tenantId sessionId id : String) (time : ℤ) (old : MessageModel) : MessageModel :=
  ⟨SessionFork.copyMessage tenantId sessionId id old.toMessageModel, time⟩

def forkSession (m : Machine) (user : TokenPayload) (sessionId messageId : String) (fresh : Fresh) : Route Json := do
  let old ← getSessionOr404 sessionId user.tenantId
  let session : SessionModel := ⟨fresh.id 0, user.tenantId, user.organizationId, user.userId,
    old.session.name ++ " (Fork)", old.session.mode, old.session.userRole, [], true, fresh.time 0, fresh.time 1⟩
  -- The workspaces are handed over as dictionaries, which have no attributes.
  if !old.workspaces.isEmpty then throw ⟨.attributeError, "'dict' object has no attribute 'slug'"⟩
  let rows ← prepareWorkspaces m user.tenantId [] fresh
  let (workspaces, added) ← getOrCreateAll user.tenantId fresh.id 1 rows []
  let branch ← Thread.query fun s => s.messages.find? fun r =>
    decide (r.id = messageId ∧ r.sessionId = sessionId ∧ r.tenantId = user.tenantId)
  match branch with
  | none => commit (newSession session workspaces added)
  | some branch =>
    let messages ← Thread.query fun s =>
      (s.messagesOf sessionId user.tenantId).filter fun r => decide (r.sequence ≤ branch.sequence)
    commit (newSession session workspaces added ++ messages.mapIdx fun i r =>
      .addMessage (copyMessage user.tenantId session.id (fresh.id (i + 2)) (fresh.time (i + 2)) r))
  return sessionToDict m (← refresh session.id)

/-! ## Workspaces of a session -/

/-- The token that `mount_repository` is handed, encrypted unless it is. -/
def authToken (rt : SessionConfig.Runtime) (entropy : ℕ) (context : Fields) : Except PyError Json := do
  let token ← SessionConfig.accessToken context
  match token with
  | .str text =>
    return if text = "" ∨ looksEncrypted text then token else .str (encryptString rt.fernet entropy text)
  | _ =>
    if token.truthy then .error ⟨.attributeError, "'" ++ token.typeName ++ "' object has no attribute 'startswith'"⟩
    else return token

/-- The repository of a binding is mounted, when it has one. -/
def mountRepository (m : Machine) (ws : WorkspaceBinding) (context : Fields) (fresh : Fresh) : Route Unit := do
  if ws.type = "git" ∧ ws.url.getD "" ≠ "" then
    let _ ← Route.ofExcept (authToken m.runtime (fresh.entropy 0) context)
    match fresh.mountError with
    | some e => throw (httpException "400" ("Failed to clone repository: " ++ e))
    | none => return ()

def addWorkspace (m : Machine) (user : TokenPayload) (sessionId : String) (ws : WorkspaceBinding) (fresh : Fresh) :
    Route Json := do
  let loaded ← getSessionOr404 sessionId user.tenantId
  let rows ← prepareWorkspaces m user.tenantId [ws] fresh
  let (workspaces, added) ← getOrCreateAll user.tenantId fresh.id 0 rows []
  let bound := workspaces.filter fun w => loaded.workspaces.all fun old => decide (old.slug ≠ w.slug)
  mountRepository m ws loaded.session.context fresh
  commit (added.map .addWorkspace ++ bound.map (fun w => .addBinding loaded.session.id w.id) ++
    [.setSession loaded.session.id { lastActiveAt := some (fresh.time 0) }])
  return sessionToDict m (← refresh loaded.session.id)

def removeWorkspace (m : Machine) (user : TokenPayload) (sessionId slug : String) (fresh : Fresh) : Route Json := do
  let loaded ← getSessionOr404 sessionId user.tenantId
  let removed := loaded.workspaces.filter fun w => decide (w.slug = slug)
  if removed.isEmpty then throw (httpException "404" ("Workspace '" ++ slug ++ "' not found in session"))
  commit (removed.map (fun w => .removeBinding loaded.session.id w.id) ++
    [.setSession loaded.session.id { lastActiveAt := some (fresh.time 0) }])
  return sessionToDict m (← refresh loaded.session.id)

def listWorkspaces (user : TokenPayload) (sessionId : String) : Route Json := do
  let loaded ← getSessionOr404 sessionId user.tenantId
  return .obj [("workspaces", .arr (loaded.workspaces.map workspaceToDict))]

/-! ## Configuration -/

def updateSessionConfig (m : Machine) (user : TokenPayload) (sessionId : String) (req : SessionConfigRequest)
    (fresh : Fresh) : Route Json := do
  let loaded ← getSessionOr404 sessionId user.tenantId
  let context ← Route.ofExcept
    (SessionConfig.updatedContext m.runtime (fresh.entropy 0) (fresh.entropy 1) req loaded.session.context)
  commit [.setSession loaded.session.id { context := some context, lastActiveAt := some (fresh.time 0) }]
  let config ← Route.ofExcept (SessionConfig.activeConfig context)
  return .obj [("session_id", .str sessionId), ("status", .str "config_updated"), ("active_config", config)]

def getSessionConfig (m : Machine) (user : TokenPayload) (sessionId : String) : Route Json := do
  let loaded ← getSessionOr404 sessionId user.tenantId
  let context := loaded.session.context
  let token ← Route.ofExcept (SessionConfig.accessToken context)
  let key := SessionConfig.shownSecret m.runtime (Fields.get context "api_key")
  return .obj [("model", (context.lookup "model").getD (.str "")),
    ("base_url", (context.lookup "base_url").getD (.str "")),
    ("api_key_masked", .str (SessionConfig.maskSecret key 8 4)),
    ("github_token_masked", .str (SessionConfig.maskSecret (SessionConfig.shownSecret m.runtime token) 4 4)),
    ("extra_body", Fields.get context "extra_body")]

/-! ## Chats -/

def newTask (user : TokenPayload) (sessionId description : String) (fresh : Fresh) : TaskModel :=
  ⟨fresh.id 0, user.tenantId, sessionId, description, "pending", fresh.time 0⟩

/-- What is published for a new task. -/
def think (user : TokenPayload) (task : TaskModel) : Route Unit :=
  publish "task_queue" user.tenantId [("event_type", .str "AGENT_THINK"), ("task_id", .str task.id),
    ("session_id", .str task.sessionId), ("description", .str task.description)]

def sendChatMessage (user : TokenPayload) (req : ChatRequest) (fresh : Fresh) : Route Json := do
  if !fresh.admitted then throw (httpException "429" "Rate limit exceeded")
  match ← Thread.query fun s => s.findSession req.sessionId user.tenantId with
  | none => throw (httpException "403" "Not authorized or session not found")
  | some loaded =>
    let task := newTask user req.sessionId req.message fresh
    commit [.setSession loaded.session.id { context := some (req.contextOf loaded.session.context) }, .addTask task]
    think user task
    return .obj [("status", .str "accepted"), ("task_id", .str task.id),
      ("message", .str "Message dispatched to agent.")]

/-- `_parse_json_field`. -/
def parseJsonField (m : Machine) (raw : Json) : Json :=
  if !raw.truthy then .obj []
  else
    match raw with
    | .obj _ => raw
    | .str text => (jsonLoads m.limits.refuses text).toOption.getD (.obj [])
    | _ => .obj []

def messageToDict (m : Machine) (r : MessageModel) : Json :=
  .obj [("id", .str r.id), ("role", .str r.role), ("content", .str r.content),
    ("tool_calls", parseJsonField m (optional r.toolCalls)), ("tool_call_id", optional r.toolCallId),
    ("metadata", parseJsonField m r.extraMetadata), ("created_at", .str (m.isoformat r.createdAt))]

/-- `LIMIT`: a negative one is none. -/
def limited {α : Type} (limit : ℤ) (rows : List α) : List α := if limit < 0 then rows else rows.take limit.toNat

def getChatHistory (m : Machine) (user : TokenPayload) (sessionId : String) (limit : ℤ) : Route Json := do
  match ← Thread.query fun s => s.findSession sessionId user.tenantId with
  | none => throw (httpException "403" "Not authorized or session not found")
  | some _ =>
    let rows ← Thread.query fun s => limited limit (s.messagesOf sessionId user.tenantId)
    return .obj [("session_id", .str sessionId), ("messages", .arr (rows.map (messageToDict m)))]

def notPending : PyError := httpException "404" "Pending approval request not found"

/-- The metadata of a row that waits for a decision. -/
def pendingMetadata (message : MessageModel) : Except PyError Json := do
  if !message.extraMetadata.truthy then .error notPending
  let status ← message.extraMetadata.get "status"
  if status ≠ .str "NEEDS_APPROVAL" then .error notPending
  return message.extraMetadata

/-- `{**metadata, "status": status}`. -/
def withStatus (metadata : Json) (status : String) : Except PyError Json :=
  Approval.setItem metadata "status" (.str status)

/-- The tool and its arguments with the flag, and the metadata they are read from: its arguments are the same object. -/
def approvedCall (metadata : Json) : Except PyError (Json × Json × Json) := do
  let name ← metadata.get "tool_name"
  let args ← metadata.getD "args" (.obj [])
  let args ← Approval.setItem args "__approved__" (.bool true)
  match metadata with
  | .obj fields =>
    let fields := if (fields.lookup "args").isSome then assocSet "args" args fields else fields
    return (name, args, .obj fields)
  | _ => return (name, args, metadata)

def approveToolCall (user : TokenPayload) (sessionId messageId decision : String) : Route Json := do
  match ← Thread.query fun s => s.messages.find? fun r =>
    decide (r.id = messageId ∧ r.sessionId = sessionId ∧ r.tenantId = user.tenantId) with
  | none => throw notPending
  | some message =>
    let metadata ← Route.ofExcept (pendingMetadata message)
    if decision = "denied" then
      let denied ← Route.ofExcept (withStatus metadata "DENIED")
      commit [.setMetadata message.id denied]
      return .obj [("status", .str "denied")]
    else
      let (name, args, metadata) ← Route.ofExcept (approvedCall metadata)
      let approved ← Route.ofExcept (withStatus metadata "APPROVED")
      commit [.setMetadata message.id approved]
      let tool : Json := .obj [("name", name), ("args", args), ("id", optional message.toolCallId)]
      publish "execution_queue" user.tenantId [("event_type", .str "EXECUTE_TOOL"),
        ("task_id", optional message.taskId), ("session_id", .str sessionId), ("tool", tool)]
      return .obj [("status", .str "dispatched")]

/-! ## Tasks -/

/-- `dispatch_task`, with `assert_session_access`. -/
def dispatchTask (user : TokenPayload) (sessionId description : String) (fresh : Fresh) : Route Json := do
  match ← Thread.query fun s => s.findSession sessionId user.tenantId with
  | none => throw (httpException "403" "Not authorized or session not found")
  | some _ =>
    let task := newTask user sessionId description fresh
    commit [.addTask task]
    think user task
    return .obj [("status", .str "accepted"), ("task_id", .str task.id)]

def taskToDict (m : Machine) (task : TaskModel) : Json :=
  .obj [("id", .str task.id), ("tenant_id", .str task.tenantId), ("description", .str task.description),
    ("status", .str task.status), ("created_at", .str (m.isoformat task.createdAt))]

def listTasks (m : Machine) (user : TokenPayload) : Route Json := do
  let tasks ← Thread.query fun s =>
    ((s.tasks.filter fun r => decide (r.tenantId = user.tenantId)).insertionSort
      fun a b => b.createdAt ≤ a.createdAt).take 50
  return .obj [("tasks", .arr (tasks.map (taskToDict m)))]

/-- The check of `stream_task_logs`. -/
def taskBelongsToTenant (taskId tenantId : String) : Route Json := do
  let found ← Thread.query fun s => s.tasks.any fun r => decide (r.id = taskId ∧ r.tenantId = tenantId)
  return .bool found

/-! ## What the workers store -/

/-- A row that a worker commits for the tenant of its event. -/
def persistMessage (tenantId : String) (message : MessageModel) (fresh : Fresh) : Route Json := do
  commit [.addMessage { message with id := fresh.id 0, tenantId := tenantId, createdAt := fresh.time 0 }]
  return .null

/-! ## Runs -/

inductive Request where
  | createSession (req : SessionCreateRequest)
  | listSessions
  | getSession (sessionId : String)
  | renameSession (sessionId name : String)
  | endSession (sessionId : String)
  | forkSession (sessionId messageId : String)
  | addWorkspace (sessionId : String) (ws : WorkspaceBinding)
  | removeWorkspace (sessionId slug : String)
  | listWorkspaces (sessionId : String)
  | updateSessionConfig (sessionId : String) (req : SessionConfigRequest)
  | getSessionConfig (sessionId : String)
  | sendChatMessage (req : ChatRequest)
  | getChatHistory (sessionId : String) (limit : ℤ)
  | approveToolCall (sessionId messageId decision : String)
  | dispatchTask (sessionId description : String)
  | listTasks
  | taskBelongsToTenant (taskId : String)
  | persistMessage (message : MessageModel)

/-- A request in flight: whose it is, and a number that no other one of his has. -/
structure Key where
  user : TokenPayload
  number : ℕ
deriving DecidableEq

def route (m : Machine) (user : TokenPayload) (fresh : Fresh) : Request → Route Json
  | .createSession req => createSession m user req fresh
  | .listSessions => listSessions m user
  | .getSession sessionId => getSession m user sessionId
  | .renameSession sessionId name => renameSession user sessionId name fresh
  | .endSession sessionId => endSession user sessionId
  | .forkSession sessionId messageId => forkSession m user sessionId messageId fresh
  | .addWorkspace sessionId ws => addWorkspace m user sessionId ws fresh
  | .removeWorkspace sessionId slug => removeWorkspace m user sessionId slug fresh
  | .listWorkspaces sessionId => listWorkspaces user sessionId
  | .updateSessionConfig sessionId req => updateSessionConfig m user sessionId req fresh
  | .getSessionConfig sessionId => getSessionConfig m user sessionId
  | .sendChatMessage req => sendChatMessage user req fresh
  | .getChatHistory sessionId limit => getChatHistory m user sessionId limit
  | .approveToolCall sessionId messageId decision => approveToolCall user sessionId messageId decision
  | .dispatchTask sessionId description => dispatchTask user sessionId description fresh
  | .listTasks => listTasks m user
  | .taskBelongsToTenant taskId => taskBelongsToTenant taskId user.tenantId
  | .persistMessage message => persistMessage user.tenantId message fresh

abbrev World := Concurrent Store Key (Except PyError Json)

def program (m : Machine) (key : Key) (request : Request × Fresh) : Thread Store (Except PyError Json) :=
  (route m key.user request.2 request.1).run

/-- A request is taken in, or makes its next statement. -/
def step (m : Machine) : World → Concurrent.Label Key (Request × Fresh) → Option World := Concurrent.step (program m)

end KernelRuntime.SessionRoutes
