import KernelRuntime.Foundations.Json
import KernelRuntime.Foundations.AppendStore

/-! # The tables behind a conversation

Rows of `sessions`, `tasks` and `messages`, and `persist_message`, which writes one conversation
turn. A `Database` is what one unit of work sees: the committed rows, and the rows it has flushed
and not yet committed. -/

namespace KernelRuntime
set_option autoImplicit false

/-- The columns of `sessions` that the agent loop reads. `mountedFolders` is the property derived
from the workspaces. -/
structure SessionModel where
  id : String
  tenantId : String
  userRole : String
  context : Fields
  riskMode : String
  mountedFolders : List String
deriving DecidableEq

structure TaskModel where
  id : String
  tenantId : String
  sessionId : String
  description : String
  status : String
  iterationCount : ℕ
deriving DecidableEq

/-- A tool call as it is assembled from a model response and stored with the assistant message. -/
structure ToolCall where
  id : Option String
  type : Option String
  name : String
  arguments : String
deriving DecidableEq

inductive ApprovalStatus where
  | needsApproval
  | approved
  | denied
deriving DecidableEq

/-- What the tool worker, the only writer of the column, stores in `extra_metadata`. -/
structure ApprovalMetadata where
  status : ApprovalStatus
  toolName : String
  args : Json
deriving DecidableEq

/-- A row of `messages`. The primary key is a number that no other row has, in place of a uuid;
`toolCalls` is the decoded column, `[]` for `NULL`, and `extraMetadata` is `none` for `{}`. -/
structure MessageModel where
  id : ℕ
  tenantId : String
  sessionId : String
  taskId : Option String
  role : String
  content : String
  toolCallId : Option String
  toolCalls : List ToolCall
  extraMetadata : Option ApprovalMetadata
  sequence : ℤ
deriving DecidableEq

structure Database where
  sessions : List SessionModel
  tasks : List TaskModel
  messages : List MessageModel
  flushed : List MessageModel
  nextId : ℕ
deriving DecidableEq

namespace Database

/-- The message rows that the unit of work reads: its own flushed rows are among them. -/
def visible (db : Database) : List MessageModel := db.messages ++ db.flushed

def findSession (db : Database) (sessionId : String) : Option SessionModel :=
  db.sessions.find? fun s => decide (s.id = sessionId)

/-- `db.commit()`. -/
def commit (db : Database) : Database :=
  { db with messages := db.messages ++ db.flushed, flushed := [] }

/-- What is left when the transaction is rolled back, or the unit of work closed. -/
def rollback (db : Database) : Database := { db with flushed := [] }

@[simp] theorem visible_commit (db : Database) : db.commit.visible = db.visible := by
  simp [visible, commit]

end Database

/-! ## `persist_message` -/

/-- The arguments of `persist_message`, its keyword defaults included. -/
structure Turn where
  role : String
  content : String
  taskId : Option String := none
  toolCallId : Option String := none
  toolCalls : List ToolCall := []
  metadata : Option ApprovalMetadata := none
deriving DecidableEq

/-- How the sequence number of a new row is found from the visible rows, the session and the
tenant. -/
abbrev Sequencer := List MessageModel → String → String → ℤ

/-- The rows that `max_stmt` ranges over. The tenant filter is skipped for an empty tenant id. -/
def sequenceScope (rows : List MessageModel) (sessionId tenantId : String) : List MessageModel :=
  rows.filter fun r => decide (r.sessionId = sessionId ∧ (tenantId ≠ "" → r.tenantId = tenantId))

/-- `coalesce(max(sequence), -1)`. -/
def maxSequence (rows : List MessageModel) (sessionId tenantId : String) : ℤ :=
  ((sequenceScope rows sessionId tenantId).map MessageModel.sequence).max?.getD (-1)

/-- `(result.scalar() or -1) + 1`. -/
def nextSequence : Sequencer := fun rows sessionId tenantId =>
  (if maxSequence rows sessionId tenantId = 0 then -1 else maxSequence rows sessionId tenantId) + 1

/-- `session.tenant_id if session else "local"`. -/
def Database.tenantOf (db : Database) (sessionId : String) : String :=
  match db.findSession sessionId with
  | some session => session.tenantId
  | none => "local"

theorem Database.tenantOf_of_mem {db : Database} (hids : (db.sessions.map SessionModel.id).Nodup)
    {s : SessionModel} (hs : s ∈ db.sessions) : db.tenantOf s.id = s.tenantId := by
  have hfound : db.findSession s.id = some s :=
    find?_of_nodup_map SessionModel.id hids hs (decide_eq_true rfl) fun _ hp => of_decide_eq_true hp
  unfold tenantOf
  rw [hfound]

/-- The row `persist_message` builds. -/
def Database.newMessage (next : Sequencer) (db : Database) (sessionId : String) (turn : Turn) :
    MessageModel where
  id := db.nextId
  tenantId := db.tenantOf sessionId
  sessionId := sessionId
  taskId := turn.taskId
  role := turn.role
  content := turn.content
  toolCallId := turn.toolCallId
  toolCalls := turn.toolCalls
  extraMetadata := turn.metadata
  sequence := next db.visible sessionId (db.tenantOf sessionId)

/-- `persist_message`: the new row is added and flushed. -/
def Database.persistMessage (next : Sequencer) (db : Database) (sessionId : String) (turn : Turn) :
    MessageModel × Database :=
  let msg := db.newMessage next sessionId turn
  (msg, { db with flushed := db.flushed ++ [msg], nextId := db.nextId + 1 })

@[simp] theorem Database.visible_persistMessage (next : Sequencer) (db : Database)
    (sessionId : String) (turn : Turn) :
    (db.persistMessage next sessionId turn).2.visible =
      db.visible ++ [(db.persistMessage next sessionId turn).1] := by
  simp [visible, persistMessage]

@[simp] theorem Database.tenantOf_persistMessage (next : Sequencer) (db : Database)
    (sessionId sessionId' : String) (turn : Turn) :
    (db.persistMessage next sessionId turn).2.tenantOf sessionId' = db.tenantOf sessionId' := rfl

theorem mem_sequenceScope {rows : List MessageModel} {sessionId tenantId : String}
    {r : MessageModel} : r ∈ sequenceScope rows sessionId tenantId ↔
      r ∈ rows ∧ r.sessionId = sessionId ∧ (tenantId ≠ "" → r.tenantId = tenantId) := by
  rw [sequenceScope, List.mem_filter, decide_eq_true_eq]

/-- The rows stored for a session under its own tenant. -/
def MessageModel.StoredFor (sessionId tenantId : String) (r : MessageModel) : Prop :=
  r.sessionId = sessionId ∧ r.tenantId = tenantId

/-- A rule that always numbers above the rows of the session and tenant. -/
def Sequencer.Fresh (next : Sequencer) : Prop :=
  ∀ rows sessionId tenantId, ∀ r ∈ rows, r.StoredFor sessionId tenantId →
    r.sequence < next rows sessionId tenantId

end KernelRuntime
