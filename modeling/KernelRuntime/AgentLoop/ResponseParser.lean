import KernelRuntime.AgentLoop.World

/-! # What the brain does with a model response

`process_response` stores the assistant message, and then publishes either the batch of its tool
calls or the end of the task. A call whose arguments are not JSON ends the task; arguments that `json.loads` does not
get through raise. -/

namespace KernelRuntime.AgentLoop
set_option autoImplicit false

/-- The task, session and tenant that the brain works for. -/
structure Target where
  taskId : Option String
  sessionId : String
  tenantId : String
deriving DecidableEq

/-- `json.loads(arguments or "{}")`. -/
def parseArguments (env : Env) (arguments : String) : Except LoadError Json :=
  jsonLoads env.refuses (if arguments = "" then "\x7b\x7d" else arguments)

/-- The first call whose arguments are not loaded, and why. -/
abbrev BadCall := ToolCall × LoadError

/-- The `tools` of the batch, or where the loop that makes them ends. -/
def toolsPayload (env : Env) (taskId : Option String) : List ToolCall → Handler (Except BadCall (List ToolSpec))
  | [] => return .ok []
  | tc :: rest => do
    publishLog taskId (.toolStart tc.name tc.arguments)
    match parseArguments env tc.arguments with
    | .error e => return .error (tc, e)
    | .ok args =>
      match ← toolsPayload env taskId rest with
      | .error bad => return .error bad
      | .ok payload => return .ok (⟨tc.id, tc.name, args⟩ :: payload)

def assistantTurn (taskId : Option String) (content : String) (toolCalls : List ToolCall) : Turn where
  role := "assistant"
  content := content
  taskId := taskId
  toolCalls := toolCalls

/-- A last message, the end of the task on its log, and a commit. -/
def endTask (env : Env) (target : Target) (turn : Turn) : Handler Unit := do
  persistMessage env target.sessionId turn
  publishLog target.taskId .taskResolved
  commit env

def finishWith (env : Env) (target : Target) (content : String) : Handler Unit :=
  endTask env target (assistantTurn target.taskId content [])

def invalidArguments (env : Env) (tc : ToolCall) : String :=
  "Tool call arguments were invalid JSON for " ++ tc.name ++ ": " ++ env.jsonDecodeError tc.arguments

def batchEvent (target : Target) (payload : List ToolSpec) : ToolEvent :=
  ⟨.executeToolBatch, target.taskId, target.sessionId, payload, some target.tenantId⟩

/-- A response with tool calls. -/
def dispatchCalls (env : Env) (target : Target) (content : String) (toolCalls : List ToolCall) :
    Handler Unit := do
  persistMessage env target.sessionId (assistantTurn target.taskId content toolCalls)
  match ← toolsPayload env target.taskId toolCalls with
  | .error (tc, .malformed) => finishWith env target (invalidArguments env tc)
  | .error (tc, .refused) => throw ⟨.other, env.refusal tc.arguments⟩
  | .ok payload =>
    publishTools (batchEvent target payload)
    commit env

/-- A response without tool calls. -/
def answerTask (env : Env) (target : Target) (content : String) : Handler Unit := do
  persistMessage env target.sessionId (assistantTurn target.taskId content [])
  publishResolved ⟨target.taskId, target.sessionId, content⟩
  publishLog target.taskId .taskResolved
  commit env

def publishLineBreak (target : Target) (content : String) : Handler Unit :=
  if content = "" then return () else publishLog target.taskId (.text "\r\n")

def processResponse (env : Env) (target : Target) (collectedContent : List String)
    (toolCalls : List ToolCall) : Handler Unit := do
  let content := String.join collectedContent
  publishLineBreak target content
  if toolCalls.isEmpty then answerTask env target content
  else dispatchCalls env target content toolCalls

/-! ## What it publishes -/

/-- The payload as a function of the calls. -/
def payloadOf (env : Env) : List ToolCall → Except BadCall (List ToolSpec)
  | [] => .ok []
  | tc :: rest =>
    match parseArguments env tc.arguments with
    | .error e => .error (tc, e)
    | .ok args => (payloadOf env rest).map fun payload => ⟨tc.id, tc.name, args⟩ :: payload

/-- The log entries of the payload loop. -/
def startEvents (env : Env) : List ToolCall → List LogEvent
  | [] => []
  | tc :: rest =>
    .toolStart tc.name tc.arguments ::
      match parseArguments env tc.arguments with
      | .error _ => []
      | .ok _ => startEvents env rest

def World.logAll (w : World) (taskId : Option String) (es : List LogEvent) : World :=
  { w with taskLog := w.taskLog ++ es.map fun e => (taskId, e) }

theorem toolsPayload_run (env : Env) (taskId : Option String) (toolCalls : List ToolCall) (w : World) :
    toolsPayload env taskId toolCalls w =
      .ok (payloadOf env toolCalls) (w.logAll taskId (startEvents env toolCalls)) := by
  induction toolCalls generalizing w with
  | nil =>
    show EStateM.Result.ok _ w = _
    simp [payloadOf, startEvents, World.logAll]
  | cons tc rest ih =>
    unfold toolsPayload payloadOf startEvents
    rw [bind_run]
    change (match parseArguments env tc.arguments with
      | .error e => _
      | .ok args => _ : Handler _) (w.log taskId (.toolStart tc.name tc.arguments)) = _
    cases hargs : parseArguments env tc.arguments with
    | error e => rfl
    | ok args =>
      simp only
      rw [bind_run, ih]
      have hlog : (w.log taskId (.toolStart tc.name tc.arguments)).logAll taskId (startEvents env rest) =
          w.logAll taskId (.toolStart tc.name tc.arguments :: startEvents env rest) := by
        simp [World.log, World.logAll]
      cases hrest : payloadOf env rest with
      | error bad =>
        rw [hlog]
        rfl
      | ok payload =>
        rw [hlog]
        rfl

/-- No entry of the loop ends the task. -/
theorem not_mem_startEvents (env : Env) (toolCalls : List ToolCall) :
    LogEvent.taskResolved ∉ startEvents env toolCalls := by
  induction toolCalls with
  | nil => exact List.not_mem_nil
  | cons tc rest ih =>
    unfold startEvents
    cases parseArguments env tc.arguments with
    | error e => simp
    | ok args => simpa using ih

theorem payloadOf_reliable (env : Env) (toolCalls : List ToolCall) :
    payloadOf env.reliable toolCalls = payloadOf env toolCalls := by
  induction toolCalls with
  | nil => rfl
  | cons tc rest ih =>
    unfold payloadOf
    rw [ih]
    rfl

theorem payloadOf_eq_ok {env : Env} {toolCalls : List ToolCall} {payload : List ToolSpec}
    (h : payloadOf env toolCalls = .ok payload) :
    List.Forall₂ (fun tc spec => spec.id = tc.id ∧ spec.name = tc.name ∧
      parseArguments env tc.arguments = .ok spec.args) toolCalls payload := by
  induction toolCalls generalizing payload with
  | nil =>
    cases h
    exact List.Forall₂.nil
  | cons tc rest ih =>
    unfold payloadOf at h
    cases hargs : parseArguments env tc.arguments with
    | error e =>
      rw [hargs] at h
      cases h
    | ok args =>
      rw [hargs] at h
      cases hrest : payloadOf env rest with
      | error bad =>
        rw [hrest] at h
        cases h
      | ok tail =>
        rw [hrest] at h
        cases h
        exact List.Forall₂.cons ⟨rfl, rfl, hargs⟩ (ih hrest)

theorem payloadOf_isOk_iff (env : Env) (toolCalls : List ToolCall) :
    (∃ payload, payloadOf env toolCalls = .ok payload) ↔
      ∀ tc ∈ toolCalls, ∃ args, parseArguments env tc.arguments = .ok args := by
  induction toolCalls with
  | nil => exact ⟨fun _ _ h => absurd h List.not_mem_nil, fun _ => ⟨[], rfl⟩⟩
  | cons tc rest ih =>
    unfold payloadOf
    rw [List.forall_mem_cons, ← ih]
    cases hargs : parseArguments env tc.arguments with
    | error e => simp
    | ok args => cases payloadOf env rest <;> simp [Except.map]

end KernelRuntime.AgentLoop
