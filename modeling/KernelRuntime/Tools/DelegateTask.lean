import KernelRuntime.Foundations.Effects
import KernelRuntime.Governance.PolicyEngine
import KernelRuntime.Tools.Registry

/-! # Delegated tasks

`DelegateTaskTool.execute` runs a second agent loop: up to five model calls, every tool call of a
reply handed to the tool router, which starts a nested loop when the tool is `delegate_task`
itself. The provider and the tools are parameters, so that a statement over them is a statement
over every behaviour of the sub-agent's model. -/

namespace KernelRuntime.DelegateTask
set_option autoImplicit false

/-- A tool call of the sub-agent's model. -/
structure SubToolCall where
  id : String
  name : String
  arguments : String
deriving DecidableEq

structure Reply where
  content : Json
  toolCalls : List SubToolCall
deriving DecidableEq

inductive SubMessage where
  | system (content : String)
  | user (content : String)
  | assistant (reply : Reply)
  | tool (toolCallId name content : String)
deriving DecidableEq

/-- A call that reached `ToolExecutionRouter.execute_tool`, with the arguments the model gave. -/
structure Execution where
  sessionId : String
  toolName : String
  args : Json
  tenantId : Json
deriving DecidableEq

/-- What the sub-agent runs against. `acompletion` answers the n-th model call with the conversation
so far, `execute` runs a tool other than `delegate_task` after the executions so far. -/
structure Env where
  fs : FileSystem
  findSession : String → Option SessionModel
  environ : String → Option String
  decryptString : Json → String
  getPersonaPrompt : String → String
  getToolInstance : String → Option ToolInstance
  acompletion : ℕ → List SubMessage → Except PyError Reply
  execute : List Execution → ToolInstance → Fields → Except PyError Json
  dumps : Json → String
  limits : Limits
  jsonDecodeError : String → String
  refusal : String → String

structure State where
  executed : List Execution
  completions : ℕ

abbrev SubAgent := EStateM PyError State

/-- A computation that does not touch the state. -/
def SubAgent.ofExcept {α : Type} (r : Except PyError α) : SubAgent α :=
  match r with
  | .ok a => pure a
  | .error e => throw e

def loads (env : Env) (text : String) : SubAgent Json :=
  match jsonLoads env.limits.refuses text with
  | .ok v => pure v
  | .error .malformed => throw ⟨.valueError, env.jsonDecodeError text⟩
  | .error .refused => throw ⟨.other, env.refusal text⟩

/-- `{**args}`. -/
def asMapping (args : Json) : SubAgent Fields :=
  match args with
  | .obj fields => pure fields
  | v => throw ⟨.typeError, "'" ++ v.typeName ++ "' object is not a mapping"⟩

def record (e : Execution) : SubAgent Unit :=
  modify fun s => { s with executed := s.executed ++ [e] }

/-- The next model call; a failure is returned, not raised. -/
def complete (env : Env) (messages : List SubMessage) : SubAgent (Except PyError Reply) := fun s =>
  .ok (env.acompletion s.completions messages) { s with completions := s.completions + 1 }

/-- `ToolExecutionRouter.execute_tool`, with `nested` for the `delegate_task` tool. -/
def executeTool (env : Env) (nested : String → Fields → SubAgent Json) (tool : ToolInstance)
    (sessionId : String) (kwargs : Fields) : SubAgent Json := do
  let folderSlug := Fields.get kwargs "folder_slug"
  let rest := assocErase "folder_slug" kwargs
  if tool.name = "delegate_task" ∧ tool.provider = .builtin then
    if folderSlug.truthy ∧ rest.lookup "working_dir" = none then
      nested sessionId (assocSet "working_dir" folderSlug rest)
    else nested sessionId rest
  else
    let s ← get
    SubAgent.ofExcept (env.execute s.executed tool kwargs)

/-- The output of a registered tool; whatever it raises becomes the output. -/
def toolOutput (env : Env) (nested : String → Fields → SubAgent Json) (session : SessionModel)
    (sessionId : String) (tenantId : Json) (tool : ToolInstance) (toolName : String) (toolArgs : Json) :
    SubAgent String :=
  tryCatch
    (do
      let kwargs ← asMapping toolArgs
      record ⟨sessionId, toolName, toolArgs, tenantId⟩
      let activeFolder := session.mountedFolders.head?.getD ""
      let result ← executeTool env nested tool sessionId
        (assocSet "folder_slug" (.str activeFolder) kwargs)
      return String.ofList ((env.dumps result).toList.take 4000))
    (fun e => return "Error executing " ++ toolName ++ ": " ++ e.message)

/-- One tool call of a reply. Arguments that are not loaded end the sub-agent. -/
def runCall (env : Env) (nested : String → Fields → SubAgent Json) (session : SessionModel)
    (sessionId : String) (tenantId : Json) (tc : SubToolCall) : SubAgent SubMessage := do
  let toolArgs ← loads env tc.arguments
  match env.getToolInstance tc.name with
  | some tool =>
    let output ← toolOutput env nested session sessionId tenantId tool tc.name toolArgs
    return .tool tc.id tc.name output
  | none => return .tool tc.id tc.name ("Tool " ++ tc.name ++ " not found.")

def errorResult (text : String) : Json := .obj [("error", .str text)]

/-- The `while` loop, with the number of iterations left. -/
def converse (env : Env) (nested : String → Fields → SubAgent Json) (session : SessionModel)
    (sessionId : String) (tenantId agentRole : Json) : ℕ → List SubMessage → SubAgent Json
  | 0, _ =>
    return errorResult "Sub-agent reached max iterations without returning final answer."
  | n + 1, messages => do
    match ← complete env messages with
    | .error e => return errorResult ("Sub-agent failed: " ++ e.message)
    | .ok reply =>
      if reply.toolCalls.isEmpty then
        return .obj [("status", .str "success"), ("agent", agentRole), ("result", reply.content)]
      else
        let results ← reply.toolCalls.mapM (runCall env nested session sessionId tenantId)
        converse env nested session sessionId tenantId agentRole n
          (messages ++ [.assistant reply] ++ results)

/-- The key of the sub-agent: the session's, else the platform's OpenAI key. -/
def subAgentKey (env : Env) (session : SessionModel) : String :=
  if (Fields.get session.context "api_key").truthy then
    env.decryptString (Fields.get session.context "api_key")
  else (env.environ "OPENAI_API_KEY").getD ""

/-- `session_id` is already given by the router. -/
def checkKeywords (kwargs : Fields) : SubAgent Unit :=
  if (kwargs.lookup "session_id").isSome then
    throw ⟨.typeError, "execute() got multiple values for keyword argument 'session_id'"⟩
  else pure ()

/-- A required parameter of `execute`. -/
def required (kwargs : Fields) (name : String) : SubAgent Json :=
  match kwargs.lookup name with
  | some v => pure v
  | none => throw ⟨.typeError,
      "DelegateTaskTool.execute() missing 1 required positional argument: '" ++ name ++ "'"⟩

/-- `get_persona_prompt(role)` lowers the role, which a value other than a string cannot. -/
def personaPrompt (env : Env) (role : Json) : SubAgent String :=
  match role with
  | .str s => pure (env.getPersonaPrompt s)
  | v => throw ⟨.attributeError, "'" ++ v.typeName ++ "' object has no attribute 'lower'"⟩

def taskPrompt (fs : FileSystem) (task : Json) : List SubMessage :=
  [.user ("Task: " ++ fs.textOf task ++ "\n\nYou can use tools to accomplish this. " ++
    "Do not ask for user input, just do the task and summarize the result.")]

/-- `DelegateTaskTool.execute(session_id=session_id, **kwargs)`. The number bounds the nesting of
the interpreter's calls. -/
def execute (env : Env) : ℕ → String → Fields → SubAgent Json
  | 0, _, _ => throw ⟨.other, "maximum recursion depth exceeded"⟩
  | depth + 1, sessionId, kwargs => do
    checkKeywords kwargs
    let agentRole ← required kwargs "agent_role"
    let taskDescription ← required kwargs "task_description"
    let tenantId := (kwargs.lookup "tenant_id").getD (.str "local")
    match env.findSession sessionId with
    | none => return errorResult "Session not found for delegation."
    | some session =>
      if subAgentKey env session = "" then
        return errorResult "No API key configured for sub-agent."
      else
        let persona ← personaPrompt env agentRole
        converse env (execute env depth) session sessionId tenantId agentRole 5
          (.system persona :: taskPrompt env.fs taskDescription)

/-! ## What a run executes -/

/-- The executions grow, and the new ones satisfy `p`. -/
def Grows (p : Execution → Prop) (s s' : State) : Prop :=
  ∃ new, s'.executed = s.executed ++ new ∧ ∀ e ∈ new, p e

theorem Grows.refl (p : Execution → Prop) (s : State) : Grows p s s :=
  ⟨[], (List.append_nil _).symm, fun _ h => absurd h List.not_mem_nil⟩

theorem Grows.trans (p : Execution → Prop) (a b c : State) (hab : Grows p a b) (hbc : Grows p b c) :
    Grows p a c := by
  obtain ⟨new, hnew, hp⟩ := hab
  obtain ⟨new', hnew', hp'⟩ := hbc
  refine ⟨new ++ new', ?_, ?_⟩
  · rw [hnew', hnew, List.append_assoc]
  · intro e he
    exact (List.mem_append.mp he).elim (hp e) (hp' e)

section Grows
variable {p : Execution → Prop}

theorem grows_pure {α : Type} (a : α) : Preserves (Grows p) (pure a : SubAgent α) :=
  Preserves.pure (Grows.refl p) a

theorem grows_throw {α : Type} (e : PyError) : Preserves (Grows p) (throw e : SubAgent α) :=
  Preserves.throw (Grows.refl p) e

theorem grows_bind {α β : Type} {m : SubAgent α} {f : α → SubAgent β} (hm : Preserves (Grows p) m)
    (hf : ∀ a, Preserves (Grows p) (f a)) : Preserves (Grows p) (m >>= f) :=
  hm.bind (Grows.trans p) hf

theorem grows_ofExcept {α : Type} (r : Except PyError α) :
    Preserves (Grows p) (SubAgent.ofExcept r) := by
  cases r with
  | ok a => exact grows_pure a
  | error e => exact grows_throw e

theorem grows_record {e : Execution} (he : p e) : Preserves (Grows p) (record e) := by
  intro s
  refine ⟨[e], rfl, ?_⟩
  intro e' he'
  rw [List.mem_singleton.mp he']
  exact he

theorem grows_complete (env : Env) (messages : List SubMessage) :
    Preserves (Grows p) (complete env messages) := by
  intro s
  exact Grows.refl p s

theorem grows_required (kwargs : Fields) (name : String) :
    Preserves (Grows p) (required kwargs name) := by
  unfold required
  cases kwargs.lookup name with
  | some v => exact grows_pure v
  | none => exact grows_throw _

theorem grows_personaPrompt (env : Env) (role : Json) :
    Preserves (Grows p) (personaPrompt env role) := by
  cases role with
  | str s => exact grows_pure _
  | _ => exact grows_throw _

theorem grows_executeTool (env : Env) {nested : String → Fields → SubAgent Json} (sessionId : String)
    (hnested : ∀ kwargs, Preserves (Grows p) (nested sessionId kwargs)) (tool : ToolInstance)
    (kwargs : Fields) :
    Preserves (Grows p) (executeTool env nested tool sessionId kwargs) := by
  unfold executeTool
  simp only
  split_ifs
  · exact hnested _
  · exact hnested _
  · exact grows_bind (fun s => Grows.refl p s) fun _ => grows_ofExcept _

/-- A tool call records itself and, through the router, what a nested sub-agent executes. -/
theorem grows_toolOutput (env : Env) {nested : String → Fields → SubAgent Json}
    (session : SessionModel) (sessionId : String)
    (hnested : ∀ kwargs, Preserves (Grows p) (nested sessionId kwargs)) (tenantId : Json) (tool : ToolInstance) (toolName : String) (toolArgs : Json)
    (hp : toolArgs.isObject = true → p ⟨sessionId, toolName, toolArgs, tenantId⟩) :
    Preserves (Grows p) (toolOutput env nested session sessionId tenantId tool toolName toolArgs) := by
  unfold toolOutput
  refine Preserves.tryCatch (Grows.trans p) ?_ fun _ => grows_pure _
  cases toolArgs with
  | obj fields =>
    rw [show asMapping (.obj fields) = pure fields from rfl, pure_bind]
    refine grows_bind (grows_record (hp rfl)) fun _ => ?_
    exact grows_bind (grows_executeTool env sessionId hnested tool _) fun _ => grows_pure _
  | _ => exact grows_throw _

theorem grows_runCall (env : Env) {nested : String → Fields → SubAgent Json}
    (session : SessionModel) (sessionId : String)
    (hnested : ∀ kwargs, Preserves (Grows p) (nested sessionId kwargs)) (tenantId : Json) (tc : SubToolCall)
    (hp : ∀ tool fields, env.getToolInstance tc.name = some tool →
      jsonLoads env.limits.refuses tc.arguments = .ok (.obj fields) → p ⟨sessionId, tc.name, .obj fields, tenantId⟩) :
    Preserves (Grows p) (runCall env nested session sessionId tenantId tc) := by
  unfold runCall loads
  cases hargs : jsonLoads env.limits.refuses tc.arguments with
  | error e => cases e <;> exact grows_throw _
  | ok toolArgs =>
    rw [pure_bind]
    cases htool : env.getToolInstance tc.name with
    | none => exact grows_pure _
    | some tool =>
      refine grows_bind (grows_toolOutput env session sessionId hnested tenantId tool tc.name
        toolArgs ?_) fun _ => grows_pure _
      intro hobject
      obtain ⟨fields, rfl⟩ := (Json.isObject_iff toolArgs).mp hobject
      exact hp tool fields htool hargs

theorem grows_converse (env : Env) {nested : String → Fields → SubAgent Json}
    (session : SessionModel) (sessionId : String)
    (hnested : ∀ kwargs, Preserves (Grows p) (nested sessionId kwargs)) (tenantId agentRole : Json)
    (hp : ∀ name tool text fields, env.getToolInstance name = some tool →
      jsonLoads env.limits.refuses text = .ok (.obj fields) → p ⟨sessionId, name, .obj fields, tenantId⟩)
    (n : ℕ) (messages : List SubMessage) :
    Preserves (Grows p) (converse env nested session sessionId tenantId agentRole n messages) := by
  induction n generalizing messages with
  | zero => exact grows_pure _
  | succ n ih =>
    unfold converse
    refine grows_bind (grows_complete env messages) fun r => ?_
    cases r with
    | error e => exact grows_pure _
    | ok reply =>
      simp only
      split_ifs
      · exact grows_pure _
      · refine grows_bind ?_ fun results => ih _
        refine Preserves.mapM (Grows.refl p) (Grows.trans p) (fun tc => ?_) reply.toolCalls
        exact grows_runCall env session sessionId hnested tenantId tc
          fun tool fields htool hargs => hp tc.name tool tc.arguments fields htool hargs

/-- **Everything a sub-agent executes, at any depth of nesting, is a registered tool with a JSON
object as arguments, for the session it was started in.** -/
theorem grows_execute (env : Env) (sessionId : String)
    (hp : ∀ session name tool text fields tenantId, env.findSession sessionId = some session →
      subAgentKey env session ≠ "" → env.getToolInstance name = some tool →
        jsonLoads env.limits.refuses text = .ok (.obj fields) → p ⟨sessionId, name, .obj fields, tenantId⟩)
    (depth : ℕ) (kwargs : Fields) : Preserves (Grows p) (execute env depth sessionId kwargs) := by
  induction depth generalizing kwargs with
  | zero => exact grows_throw _
  | succ depth ih =>
    unfold execute
    refine grows_bind ?_ fun _ => grows_bind (grows_required kwargs _) fun agentRole =>
      grows_bind (grows_required kwargs _) fun taskDescription => ?_
    · unfold checkKeywords
      split_ifs
      · exact grows_throw _
      · exact grows_pure _
    · cases hsession : env.findSession sessionId with
      | none => exact grows_pure _
      | some session =>
        simp only
        split_ifs with hkey
        · exact grows_pure _
        · refine grows_bind (grows_personaPrompt env agentRole) fun persona => ?_
          exact grows_converse env session sessionId ih _ agentRole
            (fun name tool text fields htool hargs =>
              hp session name tool text fields _ hsession hkey htool hargs) 5 _

end Grows

/-! ## Delegation and the policy -/

/-- The executions of a delegated task. -/
def executions (env : Env) (depth : ℕ) (sessionId : String) (kwargs : Fields) : List Execution :=
  (finalState (execute env depth sessionId kwargs) ⟨[], 0⟩).executed

/-- The same deployment with another model and other tool results. -/
def Env.withBehaviour (env : Env) (acompletion : ℕ → List SubMessage → Except PyError Reply)
    (execute : List Execution → ToolInstance → Fields → Except PyError Json) : Env :=
  { env with acompletion, execute }

/-- Whatever the sub-agent's model does, the policy accepts what is executed. -/
def DelegationGoverned (env : Env) (session : SessionModel) (sessionId : String) : Prop :=
  ∀ acompletion execute depth kwargs,
    ∀ e ∈ executions (env.withBehaviour acompletion execute) depth sessionId kwargs,
      PolicyEngine.Allows env.fs session e.toolName e.args

/-- The policy accepts every call of a registered tool, whatever JSON object its arguments are. -/
def PolicyAcceptsAll (env : Env) (session : SessionModel) : Prop :=
  ∀ name tool text fields, env.getToolInstance name = some tool →
    jsonLoads env.limits.refuses text = .ok (.obj fields) → PolicyEngine.Allows env.fs session name (.obj fields)

theorem mem_of_grows {p : Execution → Prop} {s s' : State} {e : Execution} (h : Grows p s s')
    (he : e ∈ s.executed) : e ∈ s'.executed := by
  obtain ⟨new, hnew, -⟩ := h
  rw [hnew]
  exact List.mem_append_left new he

/-- The execution is among those of the state left. -/
def Records (e : Execution) : State → State → Prop := fun _ s' => e ∈ s'.executed

theorem records_bind {α β : Type} {e : Execution} {m : SubAgent α} {f : α → SubAgent β}
    (hm : Preserves (Records e) m) (hf : ∀ a, Preserves (Grows fun _ => True) (f a)) :
    Preserves (Records e) (m >>= f) := by
  refine Preserves.comp (R := Records e) (S := Grows fun _ => True) ?_ (fun _ _ h => h) hm hf
  intro _ _ _ hb hc
  exact mem_of_grows hc hb

theorem records_toolOutput (env : Env) {nested : String → Fields → SubAgent Json}
    (session : SessionModel) (sessionId : String)
    (hnested : ∀ kwargs, Preserves (Grows fun _ => True) (nested sessionId kwargs)) (tenantId : Json)
    (tool : ToolInstance) (toolName : String) (fields : Fields) :
    Preserves (Records ⟨sessionId, toolName, .obj fields, tenantId⟩)
      (toolOutput env nested session sessionId tenantId tool toolName (.obj fields)) := by
  unfold toolOutput
  refine Preserves.tryCatchComp (R := Records ⟨sessionId, toolName, .obj fields, tenantId⟩)
    (S := Grows fun _ => True) (fun _ _ _ hb hc => mem_of_grows hc hb) (fun _ _ h => h) ?_
    fun _ => grows_pure _
  rw [show asMapping (.obj fields) = pure fields from rfl, pure_bind]
  refine records_bind ?_ fun _ => grows_bind (grows_executeTool env sessionId hnested tool _)
    fun _ => grows_pure _
  intro s
  exact List.mem_append_right _ (List.mem_singleton_self _)

theorem records_runCall (env : Env) {nested : String → Fields → SubAgent Json}
    (session : SessionModel) (sessionId : String)
    (hnested : ∀ kwargs, Preserves (Grows fun _ => True) (nested sessionId kwargs)) (tenantId : Json)
    {tc : SubToolCall} {tool : ToolInstance} {fields : Fields}
    (htool : env.getToolInstance tc.name = some tool)
    (hargs : jsonLoads env.limits.refuses tc.arguments = .ok (.obj fields)) :
    Preserves (Records ⟨sessionId, tc.name, .obj fields, tenantId⟩)
      (runCall env nested session sessionId tenantId tc) := by
  unfold runCall loads
  rw [hargs, pure_bind, htool]
  exact records_bind (records_toolOutput env session sessionId hnested tenantId tool tc.name fields)
    fun _ => grows_pure _

theorem grows_true_execute (env : Env) (sessionId : String) (depth : ℕ) (kwargs : Fields) :
    Preserves (Grows fun _ => True) (execute env depth sessionId kwargs) :=
  grows_execute env sessionId (fun _ _ _ _ _ _ _ _ _ _ => True.intro) depth kwargs

/-- A model that calls one tool with these arguments, whatever it is told. -/
def oneCall (name text : String) : ℕ → List SubMessage → Except PyError Reply :=
  fun _ _ => .ok ⟨.null, [⟨"call_1", name, text⟩]⟩

theorem records_converse (env : Env) {nested : String → Fields → SubAgent Json}
    (session : SessionModel) (sessionId : String)
    (hnested : ∀ kwargs, Preserves (Grows fun _ => True) (nested sessionId kwargs))
    (tenantId agentRole : Json) {reply : Reply} {e : Execution}
    (hreply : ∀ k messages, env.acompletion k messages = .ok reply)
    (hcalls : reply.toolCalls.isEmpty = false)
    (hrun : Preserves (Records e)
      (reply.toolCalls.mapM (runCall env nested session sessionId tenantId)))
    (n : ℕ) (messages : List SubMessage) :
    Preserves (Records e)
      (converse env nested session sessionId tenantId agentRole (n + 1) messages) := by
  intro s
  have hrest := records_bind hrun fun results => grows_converse env session sessionId hnested
    tenantId agentRole (fun _ _ _ _ _ _ => True.intro) n (messages ++ [.assistant reply] ++ results)
  have h := hrest { s with completions := s.completions + 1 }
  unfold converse
  rw [finalState_bind]
  simp only [complete, hreply, hcalls]
  exact h

/-- Such a model gets the call executed. -/
theorem oneCall_executed (env : Env) {session : SessionModel} {sessionId name text : String}
    {tool : ToolInstance} {fields : Fields} (hsession : env.findSession sessionId = some session)
    (hkey : subAgentKey env session ≠ "") (htool : env.getToolInstance name = some tool)
    (hargs : jsonLoads env.limits.refuses text = .ok (.obj fields)) :
    ⟨sessionId, name, .obj fields, .str "local"⟩ ∈
      executions (env.withBehaviour (oneCall name text) env.execute) 1 sessionId
        [("agent_role", .str "python_developer"), ("task_description", .str "do it")] := by
  let env' := env.withBehaviour (oneCall name text) env.execute
  have hnested := grows_true_execute env' sessionId 0
  have hcall : Preserves (Records ⟨sessionId, name, .obj fields, .str "local"⟩)
      ([⟨"call_1", name, text⟩].mapM
        (runCall env' (execute env' 0) session sessionId (.str "local"))) := by
    rw [List.mapM_cons]
    exact records_bind
      (records_runCall env' session sessionId hnested (.str "local") htool hargs)
      fun _ => grows_bind (grows_pure _) fun _ => grows_pure _
  have hrun : Preserves (Records ⟨sessionId, name, .obj fields, .str "local"⟩)
      (execute env' 1 sessionId
        [("agent_role", .str "python_developer"), ("task_description", .str "do it")]) := by
    have hfind : env'.findSession sessionId = some session := hsession
    have hkey' : subAgentKey env' session ≠ "" := hkey
    have hkeywords : checkKeywords [("agent_role", .str "python_developer"),
        ("task_description", .str "do it")] = pure () := rfl
    have hrole : required [("agent_role", .str "python_developer"),
        ("task_description", .str "do it")] "agent_role" = pure (.str "python_developer") := rfl
    have htask : required [("agent_role", .str "python_developer"),
        ("task_description", .str "do it")] "task_description" = pure (.str "do it") := rfl
    unfold execute
    simp only [hkeywords, hrole, htask, pure_bind, hfind, if_neg hkey']
    exact records_converse env' session sessionId hnested _ _ (fun _ _ => rfl) rfl hcall 4 _
  exact hrun ⟨[], 0⟩

/-- **A delegated task stays within the policy of its session, whatever the sub-agent's model does,
exactly when it cannot start or the policy accepts every registered tool with every argument.** -/
theorem delegationGoverned_iff (env : Env) (session : SessionModel) (sessionId : String)
    (hsession : env.findSession sessionId = some session) :
    DelegationGoverned env session sessionId ↔
      (subAgentKey env session = "" ∨ PolicyAcceptsAll env session) := by
  constructor
  · intro h
    by_cases hkey : subAgentKey env session = ""
    · exact Or.inl hkey
    · refine Or.inr ?_
      intro name tool text fields htool hargs
      exact h (oneCall name text) env.execute 1 _ _ (oneCall_executed env hsession hkey htool hargs)
  · intro h acompletion execute depth kwargs e he
    have hgrows := grows_execute (env.withBehaviour acompletion execute) sessionId
      (p := fun e => PolicyEngine.Allows env.fs session e.toolName e.args) ?_ depth kwargs ⟨[], 0⟩
    · obtain ⟨new, hnew, hp⟩ := hgrows
      rw [executions, hnew, List.nil_append] at he
      exact hp e he
    · intro session' name tool text fields tenantId hsession' hkey htool hargs
      have hsame : session = session' := Option.some.inj (hsession.symm.trans hsession')
      subst hsame
      exact h.resolve_left hkey name tool text fields htool hargs

theorem policyAcceptsAll_admin (env : Env) {session : SessionModel} (h : session.userRole = "admin") :
    PolicyAcceptsAll env session := by
  intro name tool text fields _ _
  unfold PolicyEngine.Allows PolicyEngine.assertActionAllowed
  rw [if_pos h]
  rfl

/-- A deployment with one session, the platform's key and the core tools. -/
def coreEnv (session : SessionModel) : Env where
  fs := plainFileSystem "/srv/ws" "/tmp"
  findSession id := if id = session.id then some session else none
  environ k := if k = "OPENAI_API_KEY" then some "sk-platform" else none
  decryptString _ := ""
  getPersonaPrompt _ := "You are a specialized agentic assistant."
  getToolInstance name := if name ∈ CORE_TOOLS then some ⟨name, .builtin⟩ else none
  acompletion _ _ := .ok ⟨.str "done", []⟩
  execute _ _ _ := .ok .null
  dumps _ := "null"
  limits := .unlimited
  jsonDecodeError _ := "Expecting value: line 1 column 1 (char 0)"
  refusal _ := "Exceeds the limit (4300 digits) for integer string conversion"

theorem delegationGoverned_admin :
    DelegationGoverned (coreEnv ⟨"s1", "acme", "admin", [], "strict", []⟩)
      ⟨"s1", "acme", "admin", [], "strict", []⟩ "s1" :=
  (delegationGoverned_iff (coreEnv ⟨"s1", "acme", "admin", [], "strict", []⟩) _ "s1" rfl).mpr
    (Or.inr (policyAcceptsAll_admin _ rfl))

/-- A developer in strict mode delegates a shell command that nobody approves. -/
theorem delegated_bash_not_governed :
    ¬ DelegationGoverned (coreEnv ⟨"s1", "acme", "developer", [], "strict", []⟩)
      ⟨"s1", "acme", "developer", [], "strict", []⟩ "s1" := by
  intro h
  have hargs : jsonLoads (fun _ => false) "\x7b\x7d" = .ok (.obj []) := by decide +kernel
  have htool : (coreEnv ⟨"s1", "acme", "developer", [], "strict", []⟩).getToolInstance "bash_execute" =
      some ⟨"bash_execute", .builtin⟩ := rfl
  have hallowed := h (oneCall "bash_execute" "\x7b\x7d") _ 1 _ _
    (oneCall_executed _ rfl (by decide) htool hargs)
  exact absurd hallowed (by unfold PolicyEngine.Allows; decide)

end KernelRuntime.DelegateTask
