import KernelRuntime.AgentLoop.LlmCaller
import KernelRuntime.AgentLoop.ToolWorker

/-! # The brain

`BrainWorker.process_task_event` counts the iteration of the task, stores the description of a new
task, builds the context, loads the configuration, checks the quota and calls the model. -/

namespace KernelRuntime.AgentLoop
set_option autoImplicit false

/-- What an event meets outside the database: whether the retrieval of code snippets or the dump of
a long message raises, what the quota check finds (a text when the quota is exceeded), and how the
provider answers. -/
structure BrainRun where
  retrieval : Option PyError
  quota : Except PyError (Option String)
  reply : ProviderReply

/-- `str.isspace` of a character. -/
def isSpace (c : Char) : Bool :=
  let n := c.toNat
  decide ((9 ≤ n ∧ n ≤ 13) ∨ (28 ≤ n ∧ n ≤ 32) ∨ n = 0x85 ∨ n = 0xA0 ∨ n = 0x1680 ∨
    (0x2000 ≤ n ∧ n ≤ 0x200A) ∨ n = 0x2028 ∨ n = 0x2029 ∨ n = 0x202F ∨ n = 0x205F ∨ n = 0x3000)

/-- `not text.strip()`. -/
def isBlank (text : String) : Bool := text.toList.all isSpace

def raise {α : Type} (r : Except PyError α) : Handler α :=
  match r with
  | .ok a => return a
  | .error e => throw e

def queryIf (env : Env) (condition : Bool) : Handler Unit := if condition then query env else return ()

def roleTurn (role : String) (taskId : Option String) (content : String) : Turn where
  role := role
  content := content
  taskId := taskId

/-! ## The iteration count -/

/-- The task of an event. -/
def findTask (db : Database) (target : Target) : Option TaskModel :=
  db.tasks.find? fun t => decide (some t.id = target.taskId ∧ t.sessionId = target.sessionId ∧
    (target.tenantId ≠ "" → t.tenantId = target.tenantId))

def World.withTasks (w : World) (tasks : List TaskModel) : World :=
  { w with db := { w.db with tasks := tasks } }

/-- `task.iteration_count += 1`. -/
def incrementCount (task : TaskModel) (tasks : List TaskModel) : List TaskModel :=
  tasks.map fun t => if t.id = task.id then { t with iterationCount := t.iterationCount + 1 } else t

def maxIterationsReached : String := "⚠️ Max iterations reached."

def stopIterating (env : Env) (target : Target) : Handler Unit := do
  persistMessage env target.sessionId (assistantTurn target.taskId maxIterationsReached [])
  publishLog target.taskId (.text maxIterationsReached)
  publishLog target.taskId .taskResolved
  commit env

def wrapUp (env : Env) (target : Target) (iteration : ℕ) : Handler Unit :=
  if iteration = 40 then
    persistMessage env target.sessionId (roleTurn "system" target.taskId "[SYSTEM] Wrap up task.")
  else return ()

/-- Whether the brain goes on with the event. -/
def countIteration (env : Env) (target : Target) : Handler Bool := do
  query env
  let w ← get
  match findTask w.db target with
  | none => return true
  | some task =>
    modify fun w => w.withTasks (incrementCount task w.db.tasks)
    if 50 < task.iterationCount + 1 then
      stopIterating env target
      return false
    else
      wrapUp env target (task.iterationCount + 1)
      return true

/-! ## The reasoning step -/

def persistDescription (env : Env) (target : Target) (description : String) : Handler Unit :=
  if isBlank description then return ()
  else persistMessage env target.sessionId (roleTurn "user" target.taskId description)

/-- `build_llm_context` with its query. -/
def loadContext (env : Env) (target : Target) (session : SessionModel) (retrieval : Option PyError) :
    Handler (List ContextEntry) := do
  query env
  let w ← get
  let rows := contextRows w.db.visible target.sessionId session.tenantId target.taskId
  match retrieval with
  | some e => throw e
  | none => return buildLlmContext env.cacheDir (env.systemPrompt session rows) rows

def loadConfig (env : Env) (session : SessionModel) : Handler ConfigLoader.LlmConfig := do
  queryIf env (decide (session.tenantId ≠ ""))
  raise (ConfigLoader.loadSessionLlmConfig env.config env.tenants (some session) env.environ)

/-- The quota check, and then the model. -/
def checkQuotaAndCall (env : Env) (target : Target) (messages : List ContextEntry)
    (config : ConfigLoader.LlmConfig) (run : BrainRun) : Handler Unit := do
  queryIf env (decide (target.tenantId ≠ "local"))
  match run.quota with
  | .error e => throw e
  | .ok (some text) => endTask env target (roleTurn "system" target.taskId text)
  | .ok none => callLlmAndStream env target messages config run.reply

def reason (env : Env) (target : Target) (session : SessionModel) (description : String)
    (run : BrainRun) : Handler Unit := do
  persistDescription env target description
  publishLog target.taskId (.status "thinking" "Analyzing...")
  let messages ← loadContext env target session run.retrieval
  let config ← loadConfig env session
  checkQuotaAndCall env target messages config run

/-- The event for an existing session. -/
def think (env : Env) (target : Target) (session : SessionModel) (description : String)
    (run : BrainRun) : Handler Unit := do
  if ← countIteration env target then reason env target session description run
  else return ()

/-- `BrainWorker.process_task_event`. -/
def processTaskEvent (env : Env) (event : ThinkEvent) (run : BrainRun) : Handler Unit := do
  query env
  let w ← get
  match loadSession w.db event.sessionId event.tenantId with
  | none =>
    let target : Target := ⟨event.taskId, event.sessionId, (event.tenantId).getD ""⟩
    endTask env target (roleTurn "system" event.taskId "⚠️ Session not found.")
  | some session =>
    think env ⟨event.taskId, event.sessionId, session.tenantId⟩ session event.description run

end KernelRuntime.AgentLoop
