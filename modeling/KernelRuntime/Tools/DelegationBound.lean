import KernelRuntime.Tools.DelegateTask

/-! # How many model calls a delegated task makes

A sub-agent asks its model five times at most. The tools that it is offered include `delegate_task` itself,
and every such call starts five more rounds: the limit bounds one loop, not the tree of them. -/

namespace KernelRuntime.DelegateTask
set_option autoImplicit false

/-- The model calls of a delegated task, with all those that it delegates in turn. -/
def providerCalls (env : Env) (depth : ℕ) (sessionId : String) (kwargs : Fields) : ℕ :=
  (finalState (execute env depth sessionId kwargs) ⟨[], 0⟩).completions

/-- Whatever the model and the other tools do, there are no more calls than the bound; and the task ends, with
a result that more room for nesting does not change. -/
structure Bounded (env : Env) (sessionId : String) (bound : ℕ) : Prop where
  calls : ∀ acompletion execute depth kwargs,
    providerCalls (env.withBehaviour acompletion execute) depth sessionId kwargs ≤ bound
  ends : ∃ enough, ∀ acompletion run kwargs depth, enough ≤ depth →
    execute (env.withBehaviour acompletion run) depth sessionId kwargs ⟨[], 0⟩ =
      execute (env.withBehaviour acompletion run) enough sessionId kwargs ⟨[], 0⟩

/-- The router starts a nested sub-agent for the tool. -/
def Delegates (tool : ToolInstance) : Prop := tool.name = "delegate_task" ∧ tool.provider = .builtin

instance (tool : ToolInstance) : Decidable (Delegates tool) := by unfold Delegates; infer_instance

/-- No sub-agent can start another one: there is no session or no key for it, or the tool is not registered. -/
def CannotNest (env : Env) (sessionId : String) : Prop :=
  ∀ session, env.findSession sessionId = some session → subAgentKey env session ≠ "" →
    ∀ name tool, env.getToolInstance name = some tool → ¬ Delegates tool

/-! ## Without nested sub-agents -/

def Costs (n : ℕ) (s s' : State) : Prop := s'.completions ≤ s.completions + n

theorem Costs.trans_zero (a b c : State) (hab : Costs 0 a b) (hbc : Costs 0 b c) : Costs 0 a c := by
  unfold Costs at hab hbc ⊢
  omega

theorem costs_bind {α β : Type} {n k : ℕ} {m : SubAgent α} {f : α → SubAgent β} (hm : Preserves (Costs n) m)
    (hf : ∀ a, Preserves (Costs k) (f a)) : Preserves (Costs (n + k)) (m >>= f) := by
  refine Preserves.comp (R := Costs n) (S := Costs k) ?_ ?_ hm hf
  · intro a b c hab hbc
    unfold Costs at hab hbc ⊢
    omega
  · intro a b hab
    unfold Costs at hab ⊢
    omega

theorem costs_zero_bind {α β : Type} {k : ℕ} {m : SubAgent α} {f : α → SubAgent β}
    (hm : Preserves (Costs 0) m) (hf : ∀ a, Preserves (Costs k) (f a)) : Preserves (Costs k) (m >>= f) := by
  have h := costs_bind hm hf
  rwa [Nat.zero_add] at h

theorem costs_pure {α : Type} {n : ℕ} (a : α) : Preserves (Costs n) (pure a : SubAgent α) :=
  Preserves.pure (fun s => Nat.le_add_right s.completions n) a

theorem costs_throw {α : Type} {n : ℕ} (e : PyError) : Preserves (Costs n) (throw e : SubAgent α) :=
  Preserves.throw (fun s => Nat.le_add_right s.completions n) e

theorem costs_ofExcept {α : Type} {n : ℕ} (r : Except PyError α) : Preserves (Costs n) (SubAgent.ofExcept r) := by
  cases r with
  | ok a => exact costs_pure a
  | error e => exact costs_throw e

section Flat
variable {env : Env} (nested nested' : String → Fields → SubAgent Json) {sessionId : String}

theorem executeTool_flat {tool : ToolInstance} (htool : ¬ Delegates tool) :
    executeTool env nested tool sessionId = executeTool env nested' tool sessionId := by
  funext kwargs
  unfold executeTool
  unfold Delegates at htool
  simp only [if_neg htool]

theorem costs_executeTool {tool : ToolInstance} (htool : ¬ Delegates tool) (kwargs : Fields) :
    Preserves (Costs 0) (executeTool env nested tool sessionId kwargs) := by
  unfold executeTool
  unfold Delegates at htool
  simp only [if_neg htool]
  exact costs_zero_bind (fun s => Nat.le_refl _) fun s => costs_ofExcept _

theorem runCall_flat (hflat : ∀ name tool, env.getToolInstance name = some tool → ¬ Delegates tool)
    (session : SessionModel) (tenantId : Json) :
    runCall env nested session sessionId tenantId = runCall env nested' session sessionId tenantId := by
  funext tc
  unfold runCall toolOutput
  congr 1
  funext toolArgs
  cases htool : env.getToolInstance tc.name with
  | none => rfl
  | some tool =>
    simp only
    rw [executeTool_flat nested nested' (hflat tc.name tool htool)]

theorem costs_runCall (hflat : ∀ name tool, env.getToolInstance name = some tool → ¬ Delegates tool)
    (session : SessionModel) (tenantId : Json) (tc : SubToolCall) :
    Preserves (Costs 0) (runCall env nested session sessionId tenantId tc) := by
  unfold runCall
  refine costs_zero_bind ?_ fun toolArgs => ?_
  · unfold loads
    cases jsonLoads env.limits.refuses tc.arguments with
    | error e => cases e <;> exact costs_throw _
    | ok v => exact costs_pure v
  · cases htool : env.getToolInstance tc.name with
    | none => exact costs_pure _
    | some tool =>
      refine costs_zero_bind ?_ fun output => costs_pure _
      unfold toolOutput
      refine Preserves.tryCatch Costs.trans_zero ?_ fun e => costs_pure _
      · refine costs_zero_bind ?_ fun kwargs => costs_zero_bind (fun s => Nat.le_refl _) fun _ => ?_
        · unfold asMapping
          cases toolArgs <;> first | exact costs_pure _ | exact costs_throw _
        · exact costs_zero_bind (costs_executeTool nested (hflat tc.name tool htool) _) fun _ => costs_pure _

theorem converse_flat (hflat : ∀ name tool, env.getToolInstance name = some tool → ¬ Delegates tool)
    (session : SessionModel) (tenantId agentRole : Json) (n : ℕ) (messages : List SubMessage) :
    converse env nested session sessionId tenantId agentRole n messages =
      converse env nested' session sessionId tenantId agentRole n messages := by
  induction n generalizing messages with
  | zero => rfl
  | succ n ih =>
    unfold converse
    rw [runCall_flat nested nested' hflat]
    simp only [ih]

/-- One model call for each round. -/
theorem costs_converse (hflat : ∀ name tool, env.getToolInstance name = some tool → ¬ Delegates tool)
    (session : SessionModel) (tenantId agentRole : Json) (n : ℕ) (messages : List SubMessage) :
    Preserves (Costs n) (converse env nested session sessionId tenantId agentRole n messages) := by
  induction n generalizing messages with
  | zero => exact costs_pure _
  | succ n ih =>
    unfold converse
    have hcomplete : Preserves (Costs 1) (complete env messages) := fun s => Nat.le_refl _
    rw [Nat.add_comm]
    refine costs_bind hcomplete fun r => ?_
    cases r with
    | error e => exact costs_pure _
    | ok reply =>
      simp only
      split_ifs
      · exact costs_pure _
      · refine costs_zero_bind ?_ fun results => ih _
        have hrefl : ∀ s, Costs 0 s s := fun s => Nat.le_refl _
        exact Preserves.mapM hrefl Costs.trans_zero (costs_runCall nested hflat session tenantId) reply.toolCalls

end Flat

theorem execute_flat (env : Env) {sessionId : String} (h : CannotNest env sessionId) (depth : ℕ) (kwargs : Fields) :
    execute env (depth + 1) sessionId kwargs = execute env 1 sessionId kwargs := by
  unfold execute
  cases hsession : env.findSession sessionId with
  | none => rfl
  | some session =>
    by_cases hkey : subAgentKey env session = ""
    · simp only [hkey, if_true]
    · have hflat := h session hsession hkey
      simp only [hkey, if_false]
      simp only [converse_flat (execute env depth) (execute env 0) hflat]

/-- Only the loop asks a model. -/
theorem costs_execute_of (env : Env) {sessionId : String} {n depth : ℕ}
    (h : ∀ session, env.findSession sessionId = some session → subAgentKey env session ≠ "" →
      ∀ tenantId agentRole messages, Preserves (Costs n)
        (converse env (execute env depth) session sessionId tenantId agentRole 5 messages))
    (kwargs : Fields) : Preserves (Costs n) (execute env (depth + 1) sessionId kwargs) := by
  have hrequired : ∀ name, Preserves (Costs 0) (required kwargs name) := by
    intro name
    unfold required
    cases kwargs.lookup name with
    | some v => exact costs_pure v
    | none => exact costs_throw _
  unfold execute
  refine costs_zero_bind ?_ fun _ => costs_zero_bind (hrequired _) fun agentRole =>
    costs_zero_bind (hrequired _) fun taskDescription => ?_
  · unfold checkKeywords
    split_ifs
    · exact costs_throw _
    · exact costs_pure _
  · cases hsession : env.findSession sessionId with
    | none => exact costs_pure _
    | some session =>
      simp only
      split_ifs with hkey
      · exact costs_pure _
      · refine costs_zero_bind ?_ fun persona => h session hsession hkey _ _ _
        unfold personaPrompt
        cases agentRole <;> first | exact costs_pure _ | exact costs_throw _

/-- A sub-agent that cannot start another one makes as many model calls as its loop has rounds. -/
theorem costs_execute (env : Env) {sessionId : String} (h : CannotNest env sessionId) (depth : ℕ)
    (kwargs : Fields) : Preserves (Costs 5) (execute env depth sessionId kwargs) := by
  cases depth with
  | zero => exact costs_throw _
  | succ depth =>
    refine costs_execute_of env (fun session hsession hkey tenantId agentRole messages => ?_) kwargs
    exact costs_converse (execute env depth) (h session hsession hkey) session tenantId agentRole 5 messages

/-- Without a key no model is asked. -/
theorem costs_execute_keyless (env : Env) {sessionId : String} {session : SessionModel}
    (hfind : env.findSession sessionId = some session) (hkey : subAgentKey env session = "") (depth : ℕ)
    (kwargs : Fields) : Preserves (Costs 0) (execute env depth sessionId kwargs) := by
  cases depth with
  | zero => exact costs_throw _
  | succ depth =>
    refine costs_execute_of env (fun session' hsession' hkey' _ _ _ => ?_) kwargs
    obtain rfl := Option.some.inj (hfind.symm.trans hsession')
    exact absurd hkey hkey'

theorem bounded_of_cannotNest {env : Env} {sessionId : String} (h : CannotNest env sessionId) :
    Bounded env sessionId 5 where
  calls acompletion run depth kwargs := by
    have hcosts := costs_execute (env.withBehaviour acompletion run) h depth kwargs ⟨[], 0⟩
    unfold Costs at hcosts
    rw [Nat.zero_add] at hcosts
    exact hcosts
  ends := by
    refine ⟨1, fun acompletion run kwargs depth hdepth => ?_⟩
    obtain ⟨depth, rfl⟩ : ∃ d, depth = d + 1 := ⟨depth - 1, by omega⟩
    rw [execute_flat (env.withBehaviour acompletion run) h depth kwargs]

/-! ## With nested sub-agents -/

def delegationText : String :=
  "\x7b\"agent_role\": \"devops_engineer\", \"task_description\": \"go on\"\x7d"

/-- A sub-agent that answers its task with so many delegations, all of which answer at once. -/
def delegating (name : String) (n : ℕ) : ℕ → List SubMessage → Except PyError Reply :=
  fun k _ =>
    if k = 0 then
      .ok ⟨.null, List.replicate n ⟨"call_1", name, delegationText⟩⟩
    else .ok ⟨.str "done", []⟩

def delegationArguments : Fields := [("agent_role", .str "devops_engineer"), ("task_description", .str "go on")]

section Nested
variable {env : Env} {session : SessionModel} {sessionId name : String} {tool : ToolInstance} {n : ℕ}

/-- A sub-agent whose model answers at once asks it once. -/
theorem nested_run (hsession : env.findSession sessionId = some session) (hkey : subAgentKey env session ≠ "")
    {kwargs : Fields} (hid : kwargs.lookup "session_id" = none)
    (hrole : kwargs.lookup "agent_role" = some (.str "devops_engineer"))
    (htask : kwargs.lookup "task_description" = some (.str "go on"))
    {s : State} (hreply : ∀ messages, env.acompletion s.completions messages = .ok ⟨.str "done", []⟩) :
    ∃ result, execute env 1 sessionId kwargs s = .ok result { s with completions := s.completions + 1 } := by
  have hkeywords : checkKeywords kwargs = pure () := by
    unfold checkKeywords
    rw [hid]
    rfl
  have hagent : required kwargs "agent_role" = pure (.str "devops_engineer") := by
    unfold required
    rw [hrole]
  have hdescription : required kwargs "task_description" = pure (.str "go on") := by
    unfold required
    rw [htask]
  unfold execute
  simp only [hkeywords, hagent, hdescription, pure_bind, hsession, if_neg hkey, personaPrompt]
  unfold converse
  rw [bind_run]
  simp only [complete, hreply, List.isEmpty_nil, if_true]
  exact ⟨_, rfl⟩

theorem executeTool_delegation (env : Env) (sessionId : String) (htool : Delegates tool) (nested : String → Fields → SubAgent Json)
    (folder : String) : ∃ kwargs : Fields, kwargs.lookup "session_id" = none ∧
      kwargs.lookup "agent_role" = some (.str "devops_engineer") ∧
      kwargs.lookup "task_description" = some (.str "go on") ∧
      executeTool env nested tool sessionId (assocSet "folder_slug" (.str folder) delegationArguments) =
        nested sessionId kwargs := by
  unfold executeTool
  unfold Delegates at htool
  simp only [if_pos htool]
  split_ifs
  · exact ⟨_, rfl, rfl, rfl, rfl⟩
  · exact ⟨_, rfl, rfl, rfl, rfl⟩

theorem toolOutput_run {nested : String → Fields → SubAgent Json} {tenantId : Json} {toolName : String}
    {fields : Fields} {s s' : State} {result : Json}
    (hrun : executeTool env nested tool sessionId
      (assocSet "folder_slug" (.str (session.mountedFolders.head?.getD "")) fields)
      { s with executed := s.executed ++ [⟨sessionId, toolName, .obj fields, tenantId⟩] } = .ok result s') :
    toolOutput env nested session sessionId tenantId tool toolName (.obj fields) s =
      .ok (String.ofList ((env.dumps result).toList.take 4000)) s' := by
  have hrecord : record ⟨sessionId, toolName, .obj fields, tenantId⟩ s =
      .ok () { s with executed := s.executed ++ [⟨sessionId, toolName, .obj fields, tenantId⟩] } := rfl
  unfold toolOutput
  rw [tryCatch_run, show asMapping (.obj fields) = pure fields from rfl, pure_bind, bind_run, hrecord]
  simp only
  rw [bind_run, hrun]
  rfl

/-- So does every call of the first reply. -/
theorem runCall_nested (hsession : env.findSession sessionId = some session)
    (hkey : subAgentKey env session ≠ "") (htool : env.getToolInstance name = some tool)
    (hdelegates : Delegates tool)
    (hreply : ∀ k messages, k ≠ 0 → env.acompletion k messages = .ok ⟨.str "done", []⟩) (tenantId : Json)
    {s : State} (hs : s.completions ≠ 0) : ∃ message s',
      runCall env (execute env 1) session sessionId tenantId ⟨"call_1", name, delegationText⟩ s =
        .ok message s' ∧ s'.completions = s.completions + 1 := by
  have hflat : env.limits.refuses delegationText = false := env.limits.flat _ (by decide) (by decide)
  have hargs : jsonLoads env.limits.refuses delegationText = .ok (.obj delegationArguments) :=
    jsonLoads_eq_ok.mpr ⟨hflat, by decide +kernel⟩
  obtain ⟨kwargs, hid, hrole, htask, hexecute⟩ := executeTool_delegation env sessionId hdelegates (execute env 1)
    (session.mountedFolders.head?.getD "")
  let recorded : State := { s with executed := s.executed ++ [⟨sessionId, name, .obj delegationArguments, tenantId⟩] }
  have hanswer : ∀ messages, env.acompletion recorded.completions messages = .ok ⟨.str "done", []⟩ :=
    fun messages => hreply _ messages hs
  obtain ⟨result, hrun⟩ := nested_run hsession hkey hid hrole htask hanswer
  rw [← hexecute] at hrun
  have houtput := toolOutput_run hrun
  refine ⟨.tool "call_1" name (String.ofList ((env.dumps result).toList.take 4000)),
    { recorded with completions := recorded.completions + 1 }, ?_, rfl⟩
  unfold runCall loads
  rw [hargs, pure_bind, htool]
  simp only
  rw [bind_run, houtput]
  rfl

theorem mapM_nested (hsession : env.findSession sessionId = some session)
    (hkey : subAgentKey env session ≠ "") (htool : env.getToolInstance name = some tool)
    (hdelegates : Delegates tool)
    (hreply : ∀ k messages, k ≠ 0 → env.acompletion k messages = .ok ⟨.str "done", []⟩) (tenantId : Json) (n : ℕ)
    {s : State} (hs : s.completions ≠ 0) : ∃ messages s',
      (List.replicate n ⟨"call_1", name, delegationText⟩).mapM
        (runCall env (execute env 1) session sessionId tenantId) s = .ok messages s' ∧
      s'.completions = s.completions + n := by
  induction n generalizing s with
  | zero => exact ⟨[], s, rfl, rfl⟩
  | succ n ih =>
    obtain ⟨message, s₁, hrun₁, h₁⟩ := runCall_nested hsession hkey htool hdelegates hreply tenantId hs
    obtain ⟨messages, s₂, hrun₂, h₂⟩ := ih (s := s₁) (by omega)
    refine ⟨message :: messages, s₂, ?_, by omega⟩
    rw [List.replicate_succ, List.mapM_cons, bind_run, hrun₁]
    simp only
    rw [bind_run, hrun₂]
    rfl

end Nested

def answering : ℕ → List SubMessage → Except PyError Reply := fun _ _ => .ok ⟨.str "done", []⟩

theorem answering_calls (env : Env) {session : SessionModel} {sessionId : String}
    (hsession : env.findSession sessionId = some session) (hkey : subAgentKey env session ≠ "") :
    providerCalls (env.withBehaviour answering env.execute) 1 sessionId delegationArguments = 1 := by
  generalize henv : env.withBehaviour answering env.execute = env'
  have hsession' : env'.findSession sessionId = some session := by rw [← henv]; exact hsession
  have hkey' : subAgentKey env' session ≠ "" := by rw [← henv]; exact hkey
  have hanswer : ∀ messages, env'.acompletion (⟨[], 0⟩ : State).completions messages = .ok ⟨.str "done", []⟩ := by
    intro messages
    rw [← henv]
    rfl
  have hid : delegationArguments.lookup "session_id" = none := rfl
  obtain ⟨result, hrun⟩ := nested_run hsession' hkey' hid rfl rfl hanswer
  exact congrArg State.completions (run_eq_ok hrun).1

/-- **There are as many model calls as the first reply has delegations.** -/
theorem delegating_calls (env : Env) {session : SessionModel} {sessionId name : String} {tool : ToolInstance}
    (hsession : env.findSession sessionId = some session) (hkey : subAgentKey env session ≠ "")
    (htool : env.getToolInstance name = some tool) (hdelegates : Delegates tool) (n : ℕ) :
    n < providerCalls (env.withBehaviour (delegating name (n + 1)) env.execute) 2 sessionId delegationArguments := by
  generalize henv : env.withBehaviour (delegating name (n + 1)) env.execute = env'
  have hsession' : env'.findSession sessionId = some session := by rw [← henv]; exact hsession
  have hkey' : subAgentKey env' session ≠ "" := by rw [← henv]; exact hkey
  have htool' : env'.getToolInstance name = some tool := by rw [← henv]; exact htool
  have hreply : ∀ k messages, k ≠ 0 → env'.acompletion k messages = .ok ⟨.str "done", []⟩ := by
    intro k messages hk
    rw [← henv]
    exact if_neg hk
  have hfirst : ∀ messages, env'.acompletion 0 messages =
      .ok ⟨.null, List.replicate (n + 1) ⟨"call_1", name, delegationText⟩⟩ := by
    intro messages
    rw [← henv]
    rfl
  have hasked : (⟨[], 1⟩ : State).completions ≠ 0 := Nat.one_ne_zero
  obtain ⟨results, s', hcalls, hcount⟩ := mapM_nested hsession' hkey' htool' hdelegates hreply (.str "local")
    (n + 1) hasked
  have hkeywords : checkKeywords delegationArguments = pure () := rfl
  have hagent : required delegationArguments "agent_role" = pure (.str "devops_engineer") := rfl
  have htask : required delegationArguments "task_description" = pure (.str "go on") := rfl
  unfold providerCalls execute
  simp only [hkeywords, hagent, htask, pure_bind, hsession', if_neg hkey', personaPrompt]
  unfold converse
  rw [finalState_bind]
  simp only [complete, hfirst, List.replicate_succ, List.isEmpty_cons, Bool.false_eq_true, if_false]
  rw [List.replicate_succ] at hcalls
  rw [finalState_bind]
  have htenant : (delegationArguments.lookup "tenant_id").getD (.str "local") = .str "local" := rfl
  rw [htenant, Nat.zero_add, hcalls]
  simp only
  have hlast : s'.completions ≠ 0 := by omega
  unfold converse
  rw [finalState_bind]
  simp only [complete, hreply _ _ hlast, List.isEmpty_nil, if_true]
  show n < s'.completions + 1
  omega

/-- **Delegation is bounded exactly where no sub-agent can start another one; the bound is then the five rounds
of the one loop.** -/
theorem bounded_iff_cannotNest (env : Env) (sessionId : String) :
    ((∃ bound, Bounded env sessionId bound) ↔ CannotNest env sessionId) ∧
      (CannotNest env sessionId → Bounded env sessionId 5) := by
  refine ⟨⟨?_, fun h => ⟨5, bounded_of_cannotNest h⟩⟩, bounded_of_cannotNest⟩
  rintro ⟨bound, hbound⟩ session hsession hkey name tool htool hdelegates
  have hcalls := delegating_calls env hsession hkey htool hdelegates bound
  have hle := hbound.calls (delegating name (bound + 1)) env.execute 2 delegationArguments
  omega

/-- A developer's session with the platform's key and the core tools. -/
theorem delegation_unbounded :
    ¬ ∃ bound, Bounded (coreEnv ⟨"s1", "acme", "developer", [], "auto", []⟩) "s1" bound := by
  rintro ⟨bound, hbound⟩
  generalize hsession : (⟨"s1", "acme", "developer", [], "auto", []⟩ : SessionModel) = session at hbound
  have hfind : (coreEnv session).findSession "s1" = some session := by
    rw [← hsession]
    rfl
  have hkey : subAgentKey (coreEnv session) session ≠ "" := by
    rw [← hsession]
    decide
  have htool : (coreEnv session).getToolInstance "delegate_task" = some ⟨"delegate_task", .builtin⟩ := rfl
  have hcalls := delegating_calls (coreEnv session) hfind hkey htool ⟨rfl, rfl⟩ bound
  have hle := hbound.calls (delegating "delegate_task" (bound + 1)) (coreEnv session).execute 2 delegationArguments
  omega

end KernelRuntime.DelegateTask
