import KernelRuntime.AgentLoop.ConfigLoader
import KernelRuntime.Foundations.Effects
import KernelRuntime.Governance.PolicyEngine
import KernelRuntime.Memory.ContextBuilder
import KernelRuntime.Queue.Events
import KernelRuntime.Tools.Registry

/-! # What the handlers of the agent loop act on

A handler reads and writes one `World`: the database as its unit of work sees it, the streams and
logs of the broker, and a record of the tools and models that were called. Its state survives an
exception, as in the source; the broker rolls the unit of work back when a handler ends. -/

namespace KernelRuntime.AgentLoop
set_option autoImplicit false

/-- What is published on a channel `task_log:<task_id>`. -/
inductive LogEvent where
  | text (text : String)
  | status (status message : String)
  | reasoning (text : String)
  | token (text : String)
  | toolStart (name args : String)
  | toolExecuting (name : String)
  | toolApprovalRequired (name : String)
  | toolDone (name resultPreview : String)
  | taskResolved
deriving DecidableEq

/-- A call that reached `ToolExecutionRouter.execute_tool`. -/
structure Execution where
  sessionId : String
  toolName : String
  kwargs : Fields
  toolCallId : Option String
  tenantId : String
deriving DecidableEq

/-- How `asyncio.wait_for` around a tool ends. -/
inductive ExecOutcome where
  | returned (result : Json)
  | timedOut
  | raised (message : String)
deriving DecidableEq

/-- A call of the provider: the task it is made for, and the conversation it is given. -/
structure LlmCall where
  taskId : Option String
  messages : List ContextEntry
deriving DecidableEq

/-- The event published on `task_resolved`. -/
structure ResolvedEvent where
  taskId : Option String
  sessionId : String
  output : String
deriving DecidableEq

structure World where
  /-- The database as the running unit of work sees it. -/
  db : Database
  /-- The database as it was last committed. -/
  committed : Database
  /-- The unit of work takes statements: no flush and no commit of it has failed. -/
  usable : Bool
  dbOps : ℕ
  taskQueue : List (StreamMessage ThinkEvent)
  executionQueue : List (StreamMessage ToolEvent)
  deadThinks : List (StreamMessage ThinkEvent)
  deadLetters : List (StreamMessage ToolEvent)
  taskLog : List (Option String × LogEvent)
  taskResolved : List ResolvedEvent
  /-- The tools of the event being handled: their arguments are changed in place. -/
  inFlight : List ToolSpec
  executed : List Execution
  llmCalls : List LlmCall
  nextMessage : ℕ
deriving DecidableEq

/-- The world before anything happened. -/
def World.start (sessions : List SessionModel) : World :=
  let db : Database := ⟨sessions, [], [], [], 0⟩
  ⟨db, db, true, 0, [], [], [], [], [], [], [], [], [], 0⟩

/-- What the handlers call and do not define. `dbFails` says which database operations fail, in the
order in which they are made; `executeTool` is the result of a tool after the executions so far; `refusal` is what
`json.loads` says beyond the limits. -/
structure Env where
  fs : FileSystem
  config : ConfigLoader.Runtime
  environ : ConfigLoader.Environment
  tenants : List ConfigLoader.TenantModel
  nextSequence : Sequencer
  dbFails : ℕ → Bool
  getToolInstance : String → Option ToolInstance
  executeTool : List Execution → Execution → ExecOutcome
  dumps : Json → String
  limits : Limits
  jsonDecodeError : String → String
  refusal : String → String
  systemPrompt : SessionModel → List MessageModel → String
  cacheDir : String

/-- The texts that `json.loads` does not get through. -/
abbrev Env.refuses (env : Env) : String → Bool := env.limits.refuses

/-- A deployment on one machine: no links, no tenants, a key in the environment, and tools that all
return `"done"`. -/
def localEnv : Env where
  fs := plainFileSystem "/srv/workspace" "/tmp"
  config := ConfigLoader.plainRuntime
  environ key := if key = "OPENAI_API_KEY" then some "sk-local" else none
  tenants := []
  nextSequence := nextSequence
  dbFails _ := false
  getToolInstance name := if name ∈ CORE_TOOLS then some ⟨name, .builtin⟩ else none
  executeTool _ _ := .returned (.str "done")
  dumps
    | .str s => "\"" ++ s ++ "\""
    | v => v.typeName
  limits := .unlimited
  jsonDecodeError _ := "Expecting value: line 1 column 1 (char 0)"
  refusal _ := "Exceeds the limit (4300 digits) for integer string conversion"
  systemPrompt _ _ := "You are the Lead Orchestrator of the **project_kernel_runtime**."
  cacheDir := "/srv/workspace/.sandbox_cache"

/-- A developer's session on it. -/
def localSession (riskMode : String) : SessionModel := ⟨"s1", "acme", "developer", [], riskMode, []⟩

abbrev Handler := EStateM PyError World

/-- The deployment when no database operation fails. -/
def Env.reliable (env : Env) : Env := { env with dbFails := fun _ => false }

/-! ## The unit of work -/

def databaseError : PyError := ⟨.databaseError, "database operation failed"⟩

/-- A query. -/
def query (env : Env) : Handler Unit := fun w =>
  let w' := { w with dbOps := w.dbOps + 1 }
  if w.usable = false ∨ env.dbFails w.dbOps then .error databaseError w' else .ok () w'

/-- A flush or a commit: when it fails the transaction is rolled back, and the unit of work takes no
further statement. -/
def write (env : Env) (change : World → World) : Handler Unit := fun w =>
  let w' := { w with dbOps := w.dbOps + 1 }
  if w.usable = false ∨ env.dbFails w.dbOps then
    .error databaseError { w' with db := w.committed, usable := false }
  else .ok () (change w')

/-- The row of `persist_message` in the database of the unit of work. -/
def World.addMessage (w : World) (next : Sequencer) (sessionId : String) (turn : Turn) : World :=
  { w with db := (w.db.persistMessage next sessionId turn).2 }

def World.commit (w : World) : World := { w with db := w.db.commit, committed := w.db.commit }

/-- `persist_message`: it reads the session and the largest number, and flushes the new row. -/
def persistMessage (env : Env) (sessionId : String) (turn : Turn) : Handler Unit := do
  query env
  query env
  write env fun w => w.addMessage env.nextSequence sessionId turn

/-- `db.commit()`. -/
def commit (env : Env) : Handler Unit := write env World.commit

/-- The end of a unit of work: what was not committed is gone. -/
def World.close (w : World) : World := { w with db := w.committed, usable := true }

/-! ## The broker -/

def World.log (w : World) (taskId : Option String) (e : LogEvent) : World :=
  { w with taskLog := w.taskLog ++ [(taskId, e)] }

def publishLog (taskId : Option String) (e : LogEvent) : Handler Unit :=
  modify fun w => w.log taskId e

def World.putThink (w : World) (event : ThinkEvent) : World :=
  { w with
    taskQueue := w.taskQueue ++ [⟨w.nextMessage, event, 0⟩]
    nextMessage := w.nextMessage + 1 }

def World.putTools (w : World) (event : ToolEvent) : World :=
  { w with
    executionQueue := w.executionQueue ++ [⟨w.nextMessage, event, 0⟩]
    nextMessage := w.nextMessage + 1 }

def publishThink (event : ThinkEvent) : Handler Unit := modify fun w => w.putThink event

def publishTools (event : ToolEvent) : Handler Unit := modify fun w => w.putTools event

def publishResolved (event : ResolvedEvent) : Handler Unit :=
  modify fun w => { w with taskResolved := w.taskResolved ++ [event] }

/-! ## Effects without failures -/

/-- The world after `persist_message`, when no operation fails. -/
def World.persisted (w : World) (next : Sequencer) (sessionId : String) (turn : Turn) : World :=
  { w with dbOps := w.dbOps + 3 }.addMessage next sessionId turn

/-- The world after `db.commit()`, when it does not fail. -/
def World.saved (w : World) : World := { w with dbOps := w.dbOps + 1 }.commit

theorem query_reliable (env : Env) {w : World} (hw : w.usable = true) :
    query env.reliable w = .ok () { w with dbOps := w.dbOps + 1 } := by
  simp [query, Env.reliable, hw]

theorem write_reliable (env : Env) (change : World → World) {w : World} (hw : w.usable = true) :
    write env.reliable change w = .ok () (change { w with dbOps := w.dbOps + 1 }) := by
  simp [write, Env.reliable, hw]

theorem persistMessage_reliable (env : Env) (sessionId : String) (turn : Turn) {w : World}
    (hw : w.usable = true) : persistMessage env.reliable sessionId turn w =
      .ok () (w.persisted env.nextSequence sessionId turn) := by
  unfold persistMessage
  rw [bind_run, query_reliable env hw]
  simp only
  rw [bind_run, query_reliable env (by exact hw)]
  simp only
  rw [write_reliable env _ (by exact hw)]
  rfl

theorem commit_reliable (env : Env) {w : World} (hw : w.usable = true) :
    commit env.reliable w = .ok () w.saved := by
  unfold commit
  rw [write_reliable env _ hw]
  rfl

end KernelRuntime.AgentLoop
